import MiniSpark.SqlPositions
import MiniSpark.SqlRendering
import MiniSpark.SqlTotality

/-!
# Writing tokens as text

Each token is written as its text, a string between quotes with its own quotes doubled, and
whatever stands between two tokens starts with a whitespace character. The tokenizer reads the
tokens back: no character of a word, a number or an operator is whitespace, so each scanner
stops where its token was written.
-/
namespace MiniSpark

/-- Whitespace is neither a digit nor part of a word, beyond ASCII too. -/
class LawfulPyText (F : Type) [PyText F] : Prop where
  not_isDigit : ∀ c, PyText.isSpace F c = true → PyText.isDigit F c = false
  not_isAlnum : ∀ c, PyText.isSpace F c = true → PyText.isAlnum F c = false

instance latinText_lawful : LawfulPyText ℚ where
  not_isDigit c h := by
    have hspace : c.toNat = 133 ∨ c.toNat = 160 := by
      simpa [PyText.isSpace] using h
    simp only [PyText.isDigit, decide_eq_false_iff_not, List.mem_cons, List.not_mem_nil, or_false]
    omega
  not_isAlnum c h := by
    have hspace : c.toNat = 133 ∨ c.toNat = 160 := by
      simpa [PyText.isSpace] using h
    rw [← Bool.not_eq_true]
    simp only [PyText.isAlnum, Bool.or_eq_true, Bool.and_eq_true, decide_eq_true_eq,
      List.mem_cons, List.not_mem_nil, or_false]
    omega

section Writing

variable (F : Type) [PyText F]

/-- An ASCII letter, digit or underscore. -/
def isWordChar (c : Char) : Bool := c.isAlphanum || c == '_'

/-- The ways to write a token. -/
inductive Writes : Spelling → List Char → Prop
  | keyword {text : List Char} : (∀ c ∈ text, c.isAlpha = true) →
      String.ofList (text.map Char.toUpper) ∈ keywords →
      Writes (.keyword, String.ofList (text.map Char.toUpper)) text
  | identifier {c : Char} {text : List Char} : c.isDigit = false →
      (∀ d ∈ c :: text, isWordChar d = true) →
      String.ofList ((c :: text).map Char.toUpper) ∉ keywords →
      Writes (.identifier, String.ofList (c :: text)) (c :: text)
  | integer {digits : List Char} : digits ≠ [] → (∀ c ∈ digits, c.isDigit = true) →
      Writes (.number, String.ofList digits) digits
  | decimal {whole fraction : List Char} : whole ≠ [] ∨ fraction ≠ [] →
      (∀ c ∈ whole, c.isDigit = true) → (∀ c ∈ fraction, c.isDigit = true) →
      Writes (.number, String.ofList (whole ++ '.' :: fraction)) (whole ++ '.' :: fraction)
  | string (value : String) :
      Writes (.string, value) (singleQuote :: (escapeQuotes value.toList ++ [singleQuote]))
  | longOperator {value : String} : value ∈ multiCharOperators →
      Writes (.operator, value) value.toList
  | operator {c : Char} : c ∈ singleCharOperators →
      Writes (.operator, String.ofList [c]) [c]
  | punctuation {c : Char} : c ∈ punctuation →
      Writes (.punctuation, String.ofList [c]) [c]

/-- Whitespace and line comments that end in a newline, in any order. -/
inductive Blanks : List Char → Prop
  | nil : Blanks []
  | space {c : Char} {rest : List Char} : isSpace F c = true → Blanks rest → Blanks (c :: rest)
  | comment {body rest : List Char} : '\n' ∉ body → Blanks rest →
      Blanks ('-' :: '-' :: (body ++ '\n' :: rest))

/-- Tokens written one after another; a whitespace character comes after each but the last. -/
inductive WritesAll : List Spelling → List Char → Prop
  | nil : WritesAll [] []
  | last {s : Spelling} {text : List Char} : Writes s text → WritesAll [s] text
  | cons {s : Spelling} {ss : List Spelling} {c : Char} {text blanks rest : List Char} :
      Writes s text → isSpace F c = true → Blanks F blanks → WritesAll ss rest →
      WritesAll (s :: ss) (text ++ c :: (blanks ++ rest))

/-- The text is over, or goes on with whitespace. -/
def EndsToken (rest : List Char) : Prop := ∀ c ∈ rest.head?, isSpace F c = true

end Writing

section Characters

variable {F : Type} [PyText F] {c : Char}

lemma isAlpha_range (h : c.isAlpha = true) :
    (65 ≤ c.toNat ∧ c.toNat ≤ 90) ∨ (97 ≤ c.toNat ∧ c.toNat ≤ 122) := by
  have hcases : (decide (c.val ≥ 65 ∧ c.val ≤ 90) ||
      (decide (c.val ≥ 97) && decide (c.val ≤ 122))) = true := h
  simpa [UInt32.le_iff_toNat_le] using hcases

lemma isAlphanum_range (h : c.isAlphanum = true) : 48 ≤ c.toNat ∧ c.toNat < 128 := by
  have hcases : (c.isAlpha || c.isDigit) = true := h
  rcases Bool.or_eq_true_iff.mp hcases with halpha | hdigit
  · have := isAlpha_range halpha
    omega
  · have hrange : 48 ≤ c.toNat ∧ c.toNat ≤ 57 := Char.isDigit_iff_toNat.mp hdigit
    omega

/-- A character of a word is an ASCII character after the whitespace. -/
lemma isWordChar_range (h : isWordChar c = true) : 48 ≤ c.toNat ∧ c.toNat < 128 := by
  rcases Bool.or_eq_true_iff.mp h with halnum | hscore
  · exact isAlphanum_range halnum
  · rw [beq_iff_eq.mp hscore]
    decide

lemma isWordChar_of_isDigit (h : c.isDigit = true) : isWordChar c = true := by
  show ((c.isAlpha || c.isDigit) || c == '_') = true
  rw [h, Bool.or_true, Bool.true_or]

lemma isWordChar_of_isAlpha (h : c.isAlpha = true) : isWordChar c = true := by
  show ((c.isAlpha || c.isDigit) || c == '_') = true
  rw [h, Bool.true_or, Bool.true_or]

lemma isDigit_of_isAlpha (h : c.isAlpha = true) : c.isDigit = false := by
  have hrange := isAlpha_range h
  rw [← Bool.not_eq_true, Char.isDigit_iff_toNat]
  change ¬ (48 ≤ c.toNat ∧ c.toNat ≤ 57)
  omega

lemma isAscii_of_isWordChar (h : isWordChar c = true) : isAscii c = true :=
  decide_eq_true (isWordChar_range h).2

lemma not_isSpace_of_isWordChar (h : isWordChar c = true) : ¬ isSpace F c = true := by
  have hrange := isWordChar_range h
  rw [isSpace, if_pos (isAscii_of_isWordChar h)]
  simp only [Bool.or_eq_true, Bool.and_eq_true, decide_eq_true_eq]
  omega

lemma ne_of_isWordChar {d : Char} (h : isWordChar c = true) (hd : isWordChar d = false) :
    c ≠ d := by
  rintro rfl
  rw [h] at hd
  cases hd

lemma isDigit_eq (h : isWordChar c = true) : isDigit F c = c.isDigit :=
  if_pos (isAscii_of_isWordChar h)

lemma isAlpha_eq (h : isWordChar c = true) : isAlpha F c = c.isAlpha :=
  if_pos (isAscii_of_isWordChar h)

lemma isAlnum_eq (h : isWordChar c = true) : (isAlnum F c || c == '_') = true := by
  rw [isAlnum, if_pos (isAscii_of_isWordChar h)]
  exact h

lemma ne_of_isSpace {d : Char} (h : isSpace F c = true) (hd : isSpace F d = false) : c ≠ d := by
  rintro rfl
  rw [h] at hd
  cases hd

lemma not_isWordChar_of_isSpace (h : isSpace F c = true) : c.isAlphanum = false := by
  rw [← Bool.not_eq_true]
  intro halnum
  exact not_isSpace_of_isWordChar (by simp [isWordChar, halnum]) h

variable [LawfulPyText F]

lemma isDigit_of_isSpace (h : isSpace F c = true) : isDigit F c = false := by
  by_cases hascii : isAscii c = true
  · rw [isDigit, if_pos hascii]
    have halnum := not_isWordChar_of_isSpace h
    exact (Bool.or_eq_false_iff.mp halnum).2
  · rw [isSpace, if_neg hascii] at h
    rw [isDigit, if_neg hascii]
    exact LawfulPyText.not_isDigit c h

lemma isAlnum_of_isSpace (h : isSpace F c = true) : (isAlnum F c || c == '_') = false := by
  have hscore : c ≠ '_' := ne_of_isSpace h rfl
  by_cases hascii : isAscii c = true
  · rw [isAlnum, if_pos hascii, not_isWordChar_of_isSpace h]
    simpa using hscore
  · rw [isSpace, if_neg hascii] at h
    rw [isAlnum, if_neg hascii, LawfulPyText.not_isAlnum c h]
    simpa using hscore

end Characters

section Scanners

variable {F : Type} [PyText F] {rest : List Char}

lemma readString_other {start : ℕ} {chars : List Char} {c : Char} (hc : c ≠ singleQuote) :
    readString start chars (c :: rest) = readString start (chars ++ [c]) rest := by
  rw [readString.eq_def]
  exact if_neg hc

/-- The characters between the quotes are the value. -/
lemma readString_escapeQuotes (start : ℕ) (chars value : List Char)
    (hrest : EndsToken F rest) :
    readString start chars (escapeQuotes value ++ singleQuote :: rest) =
      .ok (String.ofList (chars ++ value), rest) := by
  induction value generalizing chars with
  | nil =>
      cases rest with
      | nil => simp [escapeQuotes, readString]
      | cons d rest =>
          have hd : d ≠ singleQuote := ne_of_isSpace (hrest d rfl) rfl
          simp [escapeQuotes, readString, hd]
  | cons c value ih =>
      have happend : chars ++ c :: value = (chars ++ [c]) ++ value := by simp
      by_cases hc : c = singleQuote
      · subst hc
        rw [happend, ← ih (chars ++ [singleQuote])]
        simp [escapeQuotes, readString]
      · have hescape : escapeQuotes (c :: value) = c :: escapeQuotes value := by
          simp [escapeQuotes, hc]
        rw [happend, ← ih (chars ++ [c]), hescape, List.cons_append, readString_other hc]

/-- A run of digits is read whole. -/
lemma readNumber_digits (sawDot : Bool) {digits : List Char}
    (hdigits : ∀ c ∈ digits, c.isDigit = true) :
    readNumber F sawDot (digits ++ rest) =
      (digits ++ (readNumber F sawDot rest).1, (readNumber F sawDot rest).2) := by
  induction digits with
  | nil => rfl
  | cons c digits ih =>
      have hc := hdigits c List.mem_cons_self
      have hword := isWordChar_of_isDigit hc
      have hpoint : (c == '.') = false := by
        simpa using ne_of_isWordChar hword (d := '.') rfl
      rw [List.cons_append, readNumber, isDigit_eq hword, hc, hpoint, Bool.or_false, Bool.true_or,
        if_pos rfl, ih (fun d hd => hdigits d (List.mem_cons_of_mem c hd))]
      rfl

lemma readNumber_end [LawfulPyText F] (sawDot : Bool) (hrest : EndsToken F rest) :
    readNumber F sawDot rest = ([], rest) := by
  cases rest with
  | nil => rfl
  | cons c rest =>
      have hc := hrest c rfl
      have hpoint : (c == '.') = false := by
        simpa using ne_of_isSpace (d := '.') hc rfl
      rw [readNumber, isDigit_of_isSpace hc, hpoint]
      simp

/-- A word is read whole. -/
lemma readIdentifier_word [LawfulPyText F] {text : List Char}
    (htext : ∀ c ∈ text, isWordChar c = true) (hrest : EndsToken F rest) :
    readIdentifier F (text ++ rest) = (String.ofList text, rest) := by
  have hword : ∀ c ∈ text, (isAlnum F c || c == '_') = true :=
    fun c hc => isAlnum_eq (htext c hc)
  unfold readIdentifier
  rw [List.takeWhile_append_of_pos hword, List.dropWhile_append_of_pos hword]
  cases rest with
  | nil => simp
  | cons c rest =>
      have hc := isAlnum_of_isSpace (hrest c rfl)
      rw [List.takeWhile_cons_of_neg (by simpa using hc),
        List.dropWhile_cons_of_neg (by simpa using hc), List.append_nil]

end Scanners

section Steps

variable {F : Type} [PyText F] [PyRuntime F] {text : String} {c : Char} {rest left : List Char}
  {s : Spelling}

/-- A turn of the loop cuts off a token with this spelling. -/
def CutsOff (F : Type) [PyText F] [PyRuntime F] (text : String) (s : Spelling)
    (cs left : List Char) : Prop :=
  ∃ c rest token, cs = c :: rest ∧ nextToken F text c rest = .ok (some token, left) ∧
    token.spelling = s

lemma cutsOff_string (hrest : EndsToken F rest) (value : String) :
    CutsOff F text (.string, value)
      (singleQuote :: (escapeQuotes value.toList ++ [singleQuote]) ++ rest) rest := by
  refine ⟨singleQuote, escapeQuotes value.toList ++ singleQuote :: rest,
    ⟨.string, value, text.length - rest.length⟩, by simp, ?_, rfl⟩
  unfold nextToken
  dsimp only
  rw [if_neg (by exact Bool.false_ne_true), if_neg (by simp [singleQuote]), if_pos rfl,
    readString_escapeQuotes _ _ _ hrest, List.nil_append, String.ofList_toList]
  rfl

/-- A text that starts with a number. -/
lemma cutsOff_number (hopens : OpensToken F c rest) (hquote : c ≠ singleQuote)
    (hstart : startsNumber F (c :: rest) = true) {number : List Char}
    (hread : readNumber F false (c :: rest) = (number, left)) :
    CutsOff F text (.number, String.ofList number) (c :: rest) left := by
  refine ⟨c, rest, ⟨.number, String.ofList number, text.length - left.length⟩, rfl, ?_, rfl⟩
  unfold nextToken
  dsimp only
  rw [if_neg hopens.not_space, if_neg hopens.not_comment, if_neg hquote, if_pos hstart, hread]
  rfl

/-- A text that starts with a word. -/
lemma cutsOff_word (hopens : OpensToken F c rest) (hquote : c ≠ singleQuote)
    (hnumber : ¬ startsNumber F (c :: rest) = true) (hword : (isAlpha F c || c == '_') = true)
    {word : String} (hread : readIdentifier F (c :: rest) = (word, left)) :
    CutsOff F text
      (if upper F word ∈ keywords then (.keyword, upper F word) else (.identifier, word))
      (c :: rest) left := by
  refine ⟨c, rest, ⟨(if upper F word ∈ keywords then .keyword else .identifier),
    (if upper F word ∈ keywords then upper F word else word), text.length - left.length⟩,
    rfl, ?_, ?_⟩
  · unfold nextToken
    dsimp only
    rw [if_neg hopens.not_space, if_neg hopens.not_comment, if_neg hquote, if_neg hnumber,
      if_pos hword, hread]
    split <;> rfl
  · unfold Token.spelling
    split <;> rfl

/-- No string, number or word starts here. -/
lemma nextToken_symbol (hopens : OpensToken F c rest) (hword : startsWord F (c :: rest) = false) :
    nextToken F text c rest =
      if String.ofList ((c :: rest).take 2) ∈ multiCharOperators then
        scanned ⟨.operator, String.ofList ((c :: rest).take 2), text.length - (rest.length + 1)⟩
          (rest.drop 1)
      else if c ∈ singleCharOperators then
        scanned ⟨.operator, String.ofList [c], text.length - (rest.length + 1)⟩ rest
      else if c ∈ punctuation then
        scanned ⟨.punctuation, String.ofList [c], text.length - (rest.length + 1)⟩ rest
      else .error (.lexError ("Unexpected character " ++
        reprStr (PyRuntime.isPrintable F) (String.ofList [c]) ++ " at position " ++
        toString (text.length - (rest.length + 1)) ++ " in: " ++
        reprStr (PyRuntime.isPrintable F) text)) := by
  rw [startsWord_cons, Bool.or_eq_false_iff, Bool.or_eq_false_iff, beq_eq_false_iff_ne] at hword
  obtain ⟨⟨hquote, hnumber⟩, hletter⟩ := hword
  unfold nextToken
  dsimp only
  rw [if_neg hopens.not_space, if_neg hopens.not_comment, if_neg hquote,
    if_neg (by rw [hnumber]; exact Bool.false_ne_true),
    if_neg (by rw [hletter]; exact Bool.false_ne_true)]

lemma cutsOff_longOperator {value : String} (h : value ∈ multiCharOperators) :
    CutsOff F text (.operator, value) (value.toList ++ rest) rest := by
  obtain ⟨a, b, hvalue, ha⟩ : ∃ a b, value.toList = [a, b] ∧
      OpensToken F a (b :: rest) ∧ startsWord F (a :: b :: rest) = false := by
    have hcases : value = "<=" ∨ value = ">=" ∨ value = "!=" ∨ value = "<>" := by
      simpa [multiCharOperators] using h
    obtain rfl | rfl | rfl | rfl := hcases
    · exact ⟨'<', '=', rfl, ⟨Bool.false_ne_true, by simp⟩, rfl⟩
    · exact ⟨'>', '=', rfl, ⟨Bool.false_ne_true, by simp⟩, rfl⟩
    · exact ⟨'!', '=', rfl, ⟨Bool.false_ne_true, by simp⟩, rfl⟩
    · exact ⟨'<', '>', rfl, ⟨Bool.false_ne_true, by simp⟩, rfl⟩
  have hof : String.ofList [a, b] = value := by rw [← hvalue, String.ofList_toList]
  refine ⟨a, b :: rest, ⟨.operator, value, text.length - (rest.length + 2)⟩, ?_, ?_, rfl⟩
  · rw [hvalue]
    rfl
  · rw [nextToken_symbol ha.1 ha.2]
    simp only [List.take_succ_cons, List.take_zero, hof]
    rw [if_pos h]
    rfl

omit [PyRuntime F] in
/-- A character before whitespace is no operator of two characters. -/
lemma not_longOperator (hrest : EndsToken F rest) :
    String.ofList ((c :: rest).take 2) ∉ multiCharOperators := by
  intro h
  obtain ⟨a, b, htake, hb⟩ := multiChar_cases (F := F) h
  cases rest with
  | nil => cases htake
  | cons d rest =>
      obtain ⟨-, rfl⟩ : c = a ∧ d = b := by simpa using htake
      exact (hb []).1.not_space (hrest d rfl)

omit [PyRuntime F] in
/-- A symbol of one character before whitespace opens a token, and no word. -/
lemma symbol_opens [LawfulPyText F] (hc : c ∈ singleCharOperators ++ punctuation)
    (hrest : EndsToken F rest) :
    OpensToken F c rest ∧ startsWord F (c :: rest) = false := by
  have hfacts : isSpace F c = false ∧ isDigit F c = false ∧ (c == singleQuote) = false ∧
      (isAlpha F c || c == '_') = false := by
    simp only [singleCharOperators, punctuation, List.cons_append, List.nil_append, List.mem_cons,
      List.not_mem_nil, or_false] at hc
    obtain rfl | rfl | rfl | rfl | rfl | rfl | rfl | rfl | rfl | rfl | rfl := hc <;>
      exact ⟨rfl, rfl, rfl, rfl⟩
  obtain ⟨hspace, hdigit, hquote, hletter⟩ := hfacts
  have hcomment : rest.head? ≠ some '-' := by
    intro hhead
    exact Bool.false_ne_true (hrest '-' (by rw [hhead]; rfl))
  have hnext : (rest.head?.map (isDigit F)).getD false = false := by
    cases rest with
    | nil => rfl
    | cons d rest => exact isDigit_of_isSpace (hrest d rfl)
  have hnumber : startsNumber F (c :: rest) = false := by
    rw [startsNumber, hdigit, hnext, Bool.and_false]
    rfl
  refine ⟨⟨by rw [hspace]; exact Bool.false_ne_true, fun h => hcomment h.2⟩, ?_⟩
  rw [startsWord_cons, hquote, hnumber, hletter]
  rfl

lemma cutsOff_operator [LawfulPyText F] (hc : c ∈ singleCharOperators) (hrest : EndsToken F rest) :
    CutsOff F text (.operator, String.ofList [c]) (c :: rest) rest := by
  obtain ⟨hopens, hword⟩ := symbol_opens (List.mem_append_left punctuation hc) hrest
  refine ⟨c, rest, ⟨.operator, String.ofList [c], text.length - (rest.length + 1)⟩, rfl, ?_, rfl⟩
  rw [nextToken_symbol hopens hword, if_neg (not_longOperator hrest), if_pos hc]
  rfl

lemma cutsOff_punctuation [LawfulPyText F] (hc : c ∈ punctuation) (hrest : EndsToken F rest) :
    CutsOff F text (.punctuation, String.ofList [c]) (c :: rest) rest := by
  obtain ⟨hopens, hword⟩ := symbol_opens (List.mem_append_right singleCharOperators hc) hrest
  have hoperator : c ∉ singleCharOperators := by
    simp only [punctuation, List.mem_cons, List.not_mem_nil, or_false] at hc
    obtain rfl | rfl | rfl | rfl := hc <;> decide
  refine ⟨c, rest, ⟨.punctuation, String.ofList [c], text.length - (rest.length + 1)⟩, rfl, ?_, rfl⟩
  rw [nextToken_symbol hopens hword, if_neg (not_longOperator hrest), if_neg hoperator, if_pos hc]
  rfl

omit [PyRuntime F] in
lemma wordChar_opens (hc : isWordChar c = true) : OpensToken F c rest :=
  ⟨not_isSpace_of_isWordChar hc, fun h => ne_of_isWordChar hc rfl h.1⟩

lemma cutsOff_integer [LawfulPyText F] {digits : List Char} (hne : digits ≠ [])
    (hdigits : ∀ c ∈ digits, c.isDigit = true) (hrest : EndsToken F rest) :
    CutsOff F text (.number, String.ofList digits) (digits ++ rest) rest := by
  have hread : readNumber F false (digits ++ rest) = (digits, rest) := by
    rw [readNumber_digits false hdigits, readNumber_end false hrest, List.append_nil]
  obtain ⟨c, digits, rfl⟩ := List.exists_cons_of_ne_nil hne
  have hc := isWordChar_of_isDigit (hdigits c List.mem_cons_self)
  refine cutsOff_number (wordChar_opens hc) (ne_of_isWordChar hc rfl) ?_ hread
  rw [startsNumber, isDigit_eq hc, hdigits c List.mem_cons_self, Bool.true_or]

lemma cutsOff_decimal [LawfulPyText F] {whole fraction : List Char}
    (hne : whole ≠ [] ∨ fraction ≠ []) (hwhole : ∀ c ∈ whole, c.isDigit = true)
    (hfraction : ∀ c ∈ fraction, c.isDigit = true) (hrest : EndsToken F rest) :
    CutsOff F text (.number, String.ofList (whole ++ '.' :: fraction))
      (whole ++ '.' :: fraction ++ rest) rest := by
  have hpoint : readNumber F false ('.' :: (fraction ++ rest)) = ('.' :: fraction, rest) := by
    rw [readNumber, if_pos (by simp)]
    simp only [BEq.rfl, Bool.or_true]
    rw [readNumber_digits true hfraction, readNumber_end true hrest, List.append_nil]
  have happend : whole ++ '.' :: fraction ++ rest = whole ++ '.' :: (fraction ++ rest) := by simp
  have hread : readNumber F false (whole ++ '.' :: fraction ++ rest) =
      (whole ++ '.' :: fraction, rest) := by
    rw [happend, readNumber_digits false hwhole, hpoint]
  cases whole with
  | nil =>
      obtain ⟨d, fraction, rfl⟩ := List.exists_cons_of_ne_nil (hne.resolve_left (fun h => h rfl))
      have hd := hfraction d List.mem_cons_self
      have hopens : OpensToken F '.' (d :: fraction ++ rest) :=
        ⟨Bool.false_ne_true, fun h => absurd h.1 (by decide)⟩
      refine cutsOff_number hopens (by decide) ?_ hread
      simp [startsNumber, isDigit_eq (isWordChar_of_isDigit hd), hd]
  | cons c whole =>
      have hc := isWordChar_of_isDigit (hwhole c List.mem_cons_self)
      refine cutsOff_number (wordChar_opens hc) (ne_of_isWordChar hc rfl) ?_ hread
      rw [startsNumber, isDigit_eq hc, hwhole c List.mem_cons_self, Bool.true_or]

omit [PyRuntime F] in
lemma upper_word {word : List Char} (hword : ∀ c ∈ word, isWordChar c = true) :
    upper F (String.ofList word) = String.ofList (word.map Char.toUpper) := by
  unfold upper
  rw [String.toList_ofList]
  congr 1
  induction word with
  | nil => rfl
  | cons c word ih =>
      rw [List.flatMap_cons, if_pos (isAscii_of_isWordChar (hword c List.mem_cons_self)),
        ih (fun d hd => hword d (List.mem_cons_of_mem c hd))]
      rfl

/-- A word is a keyword or an identifier. -/
lemma cutsOff_letters [LawfulPyText F] {word : List Char} (hdigit : c.isDigit = false)
    (hword : ∀ d ∈ c :: word, isWordChar d = true) (hrest : EndsToken F rest) :
    CutsOff F text
      (if String.ofList ((c :: word).map Char.toUpper) ∈ keywords then
        (.keyword, String.ofList ((c :: word).map Char.toUpper))
      else (.identifier, String.ofList (c :: word)))
      (c :: word ++ rest) rest := by
  have hc := hword c List.mem_cons_self
  have hpoint : (c == '.') = false := by
    simpa using ne_of_isWordChar hc (d := '.') rfl
  have hnumber : ¬ startsNumber F (c :: (word ++ rest)) = true := by
    rw [startsNumber, isDigit_eq hc, hdigit, hpoint]
    exact Bool.false_ne_true
  have hletter : (isAlpha F c || c == '_') = true := by
    rw [isAlpha_eq hc]
    have hcases : ((c.isAlpha || c.isDigit) || c == '_') = true := hc
    rwa [hdigit, Bool.or_false] at hcases
  have hcut : CutsOff F text _ (c :: (word ++ rest)) rest :=
    cutsOff_word (wordChar_opens hc) (ne_of_isWordChar hc rfl) hnumber hletter
      (readIdentifier_word hword hrest)
  rw [upper_word hword] at hcut
  exact hcut

/-- One turn of the loop cuts off a written token. -/
theorem Writes.cutsOff [LawfulPyText F] {lexeme : List Char} (h : Writes s lexeme)
    (hrest : EndsToken F rest) : CutsOff F text s (lexeme ++ rest) rest := by
  cases h with
  | keyword hletters hkeyword =>
      cases lexeme with
      | nil => exact absurd hkeyword (by decide)
      | cons c word =>
          have hdigit := isDigit_of_isAlpha (hletters c List.mem_cons_self)
          have hcut : CutsOff F text _ (c :: word ++ rest) rest :=
            cutsOff_letters hdigit (fun d hd => isWordChar_of_isAlpha (hletters d hd)) hrest
          rw [if_pos hkeyword] at hcut
          exact hcut
  | @identifier c word hdigit hword hkeyword =>
      have hcut : CutsOff F text _ (c :: word ++ rest) rest := cutsOff_letters hdigit hword hrest
      rw [if_neg hkeyword] at hcut
      exact hcut
  | integer hne hdigits => exact cutsOff_integer hne hdigits hrest
  | decimal hne hwhole hfraction => exact cutsOff_decimal hne hwhole hfraction hrest
  | string value => exact cutsOff_string hrest value
  | longOperator hvalue => exact cutsOff_longOperator hvalue
  | operator hc => exact cutsOff_operator hc hrest
  | punctuation hc => exact cutsOff_punctuation hc hrest

end Steps

section Loop

variable {F : Type} [PyText F] [PyRuntime F] {text : String} {ss : List Spelling}

/-- The loop reads tokens with these spellings from what is left of the text. -/
def Scans (F : Type) [PyText F] [PyRuntime F] (text : String) (cs : List Char)
    (ss : List Spelling) : Prop :=
  ∀ fuel, cs.length ≤ fuel → ∃ tokens, tokenizeLoop F text fuel cs = .ok tokens ∧
    tokens.map Token.spelling = ss ++ [(.eof, "")]

lemma scans_nil : Scans F text [] [] := fun _ _ => ⟨_, tokenizeLoop.eq_1 F text _, rfl⟩

/-- A turn of the loop uses up a character at least. -/
lemma scans_turn {c : Char} {rest left : List Char} {found : Option Token}
    (hnext : nextToken F text c rest = .ok (found, left)) (hleft : Scans F text left ss) :
    Scans F text (c :: rest) ((found.map Token.spelling).toList ++ ss) := by
  intro fuel hfuel
  obtain ⟨fuel, rfl⟩ : ∃ n, fuel = n + 1 := ⟨fuel - 1, by simp at hfuel; omega⟩
  have hmeets := nextToken_meets (F := F) text c rest
  rw [hnext] at hmeets
  have hused : left.length ≤ rest.length := hmeets.1
  rw [List.length_cons] at hfuel
  obtain ⟨tokens, hloop, hspelling⟩ := hleft fuel (by omega)
  refine ⟨found.toList ++ tokens, ?_, ?_⟩
  · rw [tokenizeLoop, hnext]
    show (do let tokens ← tokenizeLoop F text fuel left; pure (found.toList ++ tokens)) = _
    rw [hloop]
    rfl
  · rw [List.map_append, hspelling, List.append_assoc]
    cases found <;> rfl

/-- Blanks are skipped. -/
lemma scans_blanks {blanks cs : List Char} (h : Blanks F blanks) (hcs : Scans F text cs ss) :
    Scans F text (blanks ++ cs) ss := by
  induction h with
  | nil => exact hcs
  | @space c rest hc _ ih =>
      refine scans_turn (?_ : nextToken F text _ _ = .ok (none, _)) ih
      unfold nextToken
      exact if_pos hc
  | @comment body rest hbody _ ih =>
      refine scans_turn (?_ : nextToken F text _ _ = .ok (none, _)) ih
      have hbody' : ∀ d ∈ '-' :: '-' :: body, (d != '\n') = true := by
        intro d hd
        simp only [List.mem_cons] at hd
        obtain rfl | rfl | hd := hd
        · decide
        · decide
        · exact bne_iff_ne.mpr (fun h => hbody (h ▸ hd))
      have happend : '-' :: '-' :: (body ++ '\n' :: rest) ++ cs =
          ('-' :: '-' :: body) ++ '\n' :: (rest ++ cs) := by simp
      have hskip : skipComment ('-' :: '-' :: (body ++ '\n' :: rest) ++ cs) = rest ++ cs := by
        rw [happend, skipComment, List.dropWhile_append_of_pos hbody',
          List.dropWhile_cons_of_neg (by decide)]
        rfl
      unfold nextToken
      dsimp only
      rw [if_neg (by exact Bool.false_ne_true), if_pos ⟨rfl, rfl⟩]
      exact congrArg _ (congrArg _ hskip)

/-- A written token is read, where it ends. -/
lemma scans_token [LawfulPyText F] {s : Spelling} {lexeme rest : List Char} (h : Writes s lexeme)
    (hends : EndsToken F rest) (hrest : Scans F text rest ss) :
    Scans F text (lexeme ++ rest) (s :: ss) := by
  have hcut : CutsOff F text s (lexeme ++ rest) rest := h.cutsOff hends
  obtain ⟨c, tail, token, happend, hnext, rfl⟩ := hcut
  rw [happend]
  exact scans_turn hnext hrest

lemma scans_writesAll [LawfulPyText F] {cs : List Char} (h : WritesAll F ss cs) :
    Scans F text cs ss := by
  induction h with
  | nil => exact scans_nil
  | @last s lexeme hs =>
      rw [← List.append_nil lexeme]
      exact scans_token hs (fun c hc => by cases hc) scans_nil
  | @cons s ss c lexeme blanks rest hs hc hblanks _ ih =>
      refine scans_token hs (fun d hd => ?_) (scans_blanks (.space hc hblanks) ih)
      cases hd
      exact hc

end Loop

section RoundTrip

variable {F : Type} [PyText F] [PyRuntime F] [LawfulPyText F]

/-- The tokenizer reads back the tokens a text was written from. -/
theorem tokenize_writesAll {ss : List Spelling} {cs : List Char} (h : WritesAll F ss cs) :
    ∃ tokens, tokenize F (String.ofList cs) = .ok tokens ∧
      tokens.map Token.spelling = ss ++ [(.eof, "")] := by
  unfold tokenize
  rw [String.toList_ofList]
  exact scans_writesAll h _ (by rw [String.length_ofList])

/-- The theorem applied to a keyword, a comment and a string with a quote. -/
theorem tokenize_writesAll_comment :
    WritesAll ℚ [(.keyword, "NOT"), (.string, "it's")] "not --'\n'it''s'".toList ∧
      ∃ tokens, tokenize ℚ (String.ofList "not --'\n'it''s'".toList) = .ok tokens ∧
        tokens.map Token.spelling = [(.keyword, "NOT"), (.string, "it's")] ++ [(.eof, "")] := by
  have hletters : ∀ c ∈ ['n', 'o', 't'], c.isAlpha = true := by
    simp only [List.mem_cons, List.not_mem_nil, or_false, forall_eq_or_imp, forall_eq]
    exact ⟨rfl, rfl, rfl⟩
  have hkeyword : Writes (.keyword, "NOT") ['n', 'o', 't'] :=
    show Writes (.keyword, String.ofList (['n', 'o', 't'].map Char.toUpper)) _ from
      .keyword hletters (by decide)
  have hcomment : Blanks ℚ ('-' :: '-' :: ([singleQuote] ++ '\n' :: [])) :=
    .comment (by decide) .nil
  have hwrites : WritesAll ℚ [(.keyword, "NOT"), (.string, "it's")] "not --'\n'it''s'".toList :=
    .cons (c := ' ') hkeyword (by decide) hcomment (.last (.string "it's"))
  exact ⟨hwrites, tokenize_writesAll hwrites⟩

end RoundTrip

end MiniSpark
