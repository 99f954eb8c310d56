import Mathlib.Data.List.Induction
import MiniSpark.SqlTokenizer

/-!
# Positions of tokens

Every token is cut out of the text: blanks and comments stand before it, then the characters
it was read from. An operator or a punctuation mark is recorded before the index moves on, so
its position is where it starts; a string, a number or a word is recorded after it has been
read, so its position is where it ends.
-/
namespace MiniSpark

variable (F : Type) [PyText F]

section Segments

/-- What is left after blanks and comments; the flag says that a comment is being skipped. -/
def skipBlanks : Bool → List Char → List Char
  | _, [] => []
  | true, c :: rest => skipBlanks (c != '\n') rest
  | false, c :: rest =>
      if isSpace F c then skipBlanks false rest
      else if c = '-' ∧ rest.head? = some '-' then skipBlanks true rest
      else c :: rest

/-- The characters of a string literal between its quotes. -/
def escapeQuotes (value : List Char) : List Char :=
  value.flatMap (fun c => if c = singleQuote then [singleQuote, singleQuote] else [c])

/-- The text a token is read from. -/
def IsLexeme (token : Token) (lexeme : List Char) : Prop :=
  match token.type with
  | .string =>
      lexeme = singleQuote :: (escapeQuotes token.value.toList ++ [singleQuote])
  | .keyword => upper F (String.ofList lexeme) = token.value
  | .eof => False
  | _ => lexeme = token.value.toList

/-- The text is blanks, a lexeme, blanks, a lexeme and so on, one lexeme for each token;
`P` relates a token to its lexeme and to what follows it. -/
def Segmented (P : Token → List Char → List Char → Prop) : List Char → List Token → Prop
  | text, [] => skipBlanks F false text = []
  | text, token :: tokens =>
      ∃ lexeme left, skipBlanks F false text = lexeme ++ left ∧ lexeme ≠ [] ∧
        IsLexeme F token lexeme ∧ P token lexeme left ∧ Segmented P left tokens

/-- The position is the index of the first character of the lexeme. -/
def StartsAt (text : String) (token : Token) (lexeme left : List Char) : Prop :=
  text.toList.drop token.position = lexeme ++ left

/-- Every token but the last, `EOF`, is located in the text; positions increase. -/
def LocatesSource (text : String) (tokens : List Token) : Prop :=
  (∃ located eof, tokens = located ++ [eof] ∧ eof.type = .eof ∧
    Segmented F (StartsAt text) text.toList located) ∧
  (tokens.map Token.position).Pairwise (· < ·)

/-- A quote, or the start of a number or of a word. -/
def startsWord : List Char → Bool
  | [] => false
  | c :: rest => c == singleQuote || startsNumber F (c :: rest) || (isAlpha F c || c == '_')

@[simp]
lemma startsWord_cons (c : Char) (rest : List Char) :
    startsWord F (c :: rest) =
      (c == singleQuote || startsNumber F (c :: rest) || (isAlpha F c || c == '_')) := rfl

/-- No string, number or word outside comments. -/
def wordFree : Bool → List Char → Bool
  | _, [] => true
  | true, c :: rest => wordFree (c != '\n') rest
  | false, c :: rest =>
      if isSpace F c then wordFree false rest
      else if c = '-' ∧ rest.head? = some '-' then wordFree true rest
      else !startsWord F (c :: rest) && wordFree false rest

lemma skipBlanks_space {c : Char} (rest : List Char) (hc : isSpace F c = true) :
    skipBlanks F false (c :: rest) = skipBlanks F false rest := if_pos hc

lemma skipBlanks_dash {rest : List Char} (hrest : rest.head? = some '-') :
    skipBlanks F false ('-' :: rest) = skipBlanks F true rest := by
  rw [skipBlanks, if_neg (by simp [isSpace, isAscii]), if_pos ⟨rfl, hrest⟩]

/-- A comment goes on to the end of its line. -/
lemma skipBlanks_comment (text : List Char) :
    skipBlanks F true text = skipBlanks F false (skipComment text) := by
  induction text with
  | nil => rfl
  | cons c rest ih =>
      by_cases hc : c = '\n'
      · subst hc
        rfl
      · have hne : (c != '\n') = true := by simpa using hc
        rw [skipBlanks, hne, ih]
        unfold skipComment
        rw [List.dropWhile_cons_of_pos (by simpa using hc)]

lemma skipBlanks_token {c : Char} {rest : List Char} (hspace : ¬ isSpace F c = true)
    (hdash : ¬ (c = '-' ∧ rest.head? = some '-')) :
    skipBlanks F false (c :: rest) = c :: rest := by
  rw [skipBlanks, if_neg hspace, if_neg hdash]

lemma skipBlanks_suffix (comment : Bool) (text : List Char) :
    skipBlanks F comment text <:+ text := by
  induction text generalizing comment with
  | nil => exact List.suffix_refl []
  | cons c rest ih =>
      cases comment with
      | true => exact (ih _).trans (List.suffix_cons c rest)
      | false =>
          unfold skipBlanks
          split
          · exact (ih _).trans (List.suffix_cons c rest)
          · split
            · exact (ih _).trans (List.suffix_cons c rest)
            · exact List.suffix_refl _

lemma wordFree_token {c : Char} {rest : List Char} (hspace : ¬ isSpace F c = true)
    (hdash : ¬ (c = '-' ∧ rest.head? = some '-')) :
    wordFree F false (c :: rest) = (!startsWord F (c :: rest) && wordFree F false rest) := by
  rw [wordFree, if_neg hspace, if_neg hdash]

/-- Blanks and comments do not matter. -/
lemma wordFree_skipBlanks (comment : Bool) (text : List Char) :
    wordFree F comment text = wordFree F false (skipBlanks F comment text) := by
  induction text generalizing comment with
  | nil => cases comment <;> rfl
  | cons c rest ih =>
      cases comment with
      | true => exact ih _
      | false =>
          by_cases hspace : isSpace F c = true
          · rw [skipBlanks_space F rest hspace, ← ih]
            exact if_pos hspace
          · by_cases hdash : c = '-' ∧ rest.head? = some '-'
            · rw [skipBlanks, wordFree, if_neg hspace, if_neg hspace, if_pos hdash, if_pos hdash]
              exact ih true
            · rw [skipBlanks_token F hspace hdash]

end Segments

section Scanners

lemma readString_eq_ok {start : ℕ} {chars cs left : List Char} {value : String}
    (h : readString start chars cs = .ok (value, left)) :
    ∃ body, cs = escapeQuotes body ++ singleQuote :: left ∧ value.toList = chars ++ body := by
  induction cs using List.twoStepInduction generalizing chars with
  | nil => cases h
  | singleton c =>
      unfold readString at h
      split at h
      · next hc =>
          cases h
          exact ⟨[], by simp [escapeQuotes, hc], by simp⟩
      · cases h
  | cons_cons c d rest ih ih' =>
      unfold readString at h
      by_cases hc : c = singleQuote
      · rw [if_pos hc] at h
        by_cases hd : d = singleQuote
        · dsimp only at h
          rw [if_pos hd] at h
          obtain ⟨body, hrest, hvalue⟩ := ih h
          refine ⟨singleQuote :: body, ?_, ?_⟩
          · rw [hc, hd, hrest]
            simp [escapeQuotes]
          · rw [hvalue, List.append_assoc]
            rfl
        · dsimp only at h
          rw [if_neg hd] at h
          cases h
          exact ⟨[], by simp [escapeQuotes, hc], by simp⟩
      · rw [if_neg hc] at h
        obtain ⟨body, hrest, hvalue⟩ := ih' d h
        refine ⟨c :: body, ?_, ?_⟩
        · rw [hrest]
          simp [escapeQuotes, hc]
        · rw [hvalue, List.append_assoc]
          rfl

lemma readNumber_append (sawDot : Bool) (cs : List Char) :
    (readNumber F sawDot cs).1 ++ (readNumber F sawDot cs).2 = cs := by
  induction cs generalizing sawDot with
  | nil => rfl
  | cons c rest ih =>
      unfold readNumber
      split
      · rw [List.cons_append, ih]
      · rfl

lemma readNumber_ne_nil {c : Char} {rest : List Char} (h : startsNumber F (c :: rest) = true) :
    (readNumber F false (c :: rest)).1 ≠ [] := by
  have hc : (isDigit F c || (c == '.' && !false)) = true := by
    rcases Bool.or_eq_true_iff.mp h with hdigit | hpoint
    · rw [hdigit, Bool.true_or]
    · rw [(Bool.and_eq_true_iff.mp hpoint).1]
      simp
  unfold readNumber
  rw [if_pos hc]
  exact List.cons_ne_nil _ _

end Scanners

section Turns

/-- Operators and punctuation. -/
def Token.IsSymbol (t : Token) : Prop := t.type = .operator ∨ t.type = .punctuation

/-- How a token is recorded: a symbol where it starts, anything else where it ends. -/
def Recorded (text : String) (token : Token) (lexeme left : List Char) : Prop :=
  (token.IsSymbol ∧ token.position = text.length - (lexeme ++ left).length ∧
    wordFree F false (lexeme ++ left) = wordFree F false left) ∨
  (token.position = text.length - left.length ∧ wordFree F false (lexeme ++ left) = false)

/-- What a turn of the loop does: it skips a blank or a comment, or it cuts off a token. -/
inductive Turn (text : String) (cs : List Char) : Option Token → List Char → Prop
  | blank {left : List Char} : skipBlanks F false cs = skipBlanks F false left → left <:+ cs →
      Turn text cs none left
  | token {token : Token} {lexeme left : List Char} : skipBlanks F false cs = cs →
      cs = lexeme ++ left → lexeme ≠ [] → IsLexeme F token lexeme →
      Recorded F text token lexeme left → Turn text cs (some token) left

variable [PyRuntime F]

variable {F} {text : String} {c : Char} {rest left : List Char} {found : Option Token}

/-- The character is no blank and opens no comment. -/
structure OpensToken (F : Type) [PyText F] (c : Char) (rest : List Char) : Prop where
  not_space : ¬ isSpace F c = true
  not_comment : ¬ (c = '-' ∧ rest.head? = some '-')

omit [PyRuntime F] in
/-- A string, a number or a word. -/
lemma turn_word {token : Token} (lexeme : List Char) (hopens : OpensToken F c rest)
    (hword : startsWord F (c :: rest) = true) (happend : c :: rest = lexeme ++ left)
    (hne : lexeme ≠ []) (hlexeme : IsLexeme F token lexeme)
    (hposition : token.position = text.length - left.length) :
    Turn F text (c :: rest) (some token) left := by
  refine .token (skipBlanks_token F hopens.not_space hopens.not_comment) happend hne hlexeme
    (Or.inr ⟨hposition, ?_⟩)
  rw [← happend, wordFree_token F hopens.not_space hopens.not_comment, hword]
  rfl

omit [PyRuntime F] in
/-- A symbol between what opens a token and what follows. -/
lemma turn_symbol {token : Token} (lexeme : List Char) (hopens : OpensToken F c rest)
    (happend : c :: rest = lexeme ++ left) (hne : lexeme ≠ [])
    (hlexeme : lexeme = token.value.toList) (hsymbol : token.IsSymbol)
    (hposition : token.position = text.length - (rest.length + 1))
    (hfree : wordFree F false (c :: rest) = wordFree F false left) :
    Turn F text (c :: rest) (some token) left := by
  have hlexeme' : IsLexeme F token lexeme := by
    unfold IsLexeme
    obtain htype | htype := hsymbol <;> rw [htype] <;> exact hlexeme
  refine .token (skipBlanks_token F hopens.not_space hopens.not_comment) happend hne hlexeme'
    (Or.inl ⟨hsymbol, ?_, ?_⟩)
  · rw [← happend, hposition, List.length_cons]
  · rw [← happend, hfree]

omit [PyRuntime F] in
lemma wordFree_single (hopens : OpensToken F c rest)
    (hword : startsWord F (c :: rest) = false) :
    wordFree F false (c :: rest) = wordFree F false rest := by
  rw [wordFree_token F hopens.not_space hopens.not_comment, hword]
  rfl

omit [PyRuntime F] in
/-- The operators of two characters, none of which starts a word. -/
lemma multiChar_cases {cs : List Char} (h : String.ofList cs ∈ multiCharOperators) :
    ∃ a b, cs = [a, b] ∧ ∀ left, OpensToken F b left ∧ startsWord F (b :: left) = false := by
  have hlist : cs ∈ multiCharOperators.map String.toList := by
    rw [← String.toList_ofList (l := cs)]
    exact List.mem_map_of_mem h
  have hcases : cs = ['<', '='] ∨ cs = ['>', '='] ∨ cs = ['!', '='] ∨ cs = ['<', '>'] := by
    simpa [multiCharOperators] using hlist
  obtain rfl | rfl | rfl | rfl := hcases
  · exact ⟨'<', '=', rfl, fun _ => ⟨⟨Bool.false_ne_true, by simp⟩, rfl⟩⟩
  · exact ⟨'>', '=', rfl, fun _ => ⟨⟨Bool.false_ne_true, by simp⟩, rfl⟩⟩
  · exact ⟨'!', '=', rfl, fun _ => ⟨⟨Bool.false_ne_true, by simp⟩, rfl⟩⟩
  · exact ⟨'<', '>', rfl, fun _ => ⟨⟨Bool.false_ne_true, by simp⟩, rfl⟩⟩

omit [PyRuntime F] in
lemma readIdentifier_append (cs : List Char) :
    (readIdentifier F cs).1.toList ++ (readIdentifier F cs).2 = cs := by
  unfold readIdentifier
  rw [String.toList_ofList]
  exact List.takeWhile_append_dropWhile

omit [PyRuntime F] in
lemma readIdentifier_ne_nil (h : (isAlpha F c || c == '_') = true) :
    (readIdentifier F (c :: rest)).1.toList ≠ [] := by
  have hc : (isAlnum F c || c == '_') = true := by
    rcases Bool.or_eq_true_iff.mp h with halpha | hscore
    · rw [isAlnum_of_isAlpha F halpha, Bool.true_or]
    · rw [hscore, Bool.or_true]
  unfold readIdentifier
  rw [String.toList_ofList, List.takeWhile_cons_of_pos (by exact hc)]
  exact List.cons_ne_nil _ _

/-- One turn of the loop, branch by branch. -/
theorem nextToken_turn (h : nextToken F text c rest = .ok (found, left)) :
    Turn F text (c :: rest) found left := by
  unfold nextToken at h
  dsimp only at h
  by_cases hspace : isSpace F c = true
  · rw [if_pos hspace] at h
    cases h
    exact .blank (skipBlanks_space F rest hspace) (List.suffix_cons c rest)
  rw [if_neg hspace] at h
  by_cases hdash : c = '-' ∧ rest.head? = some '-'
  · rw [if_pos hdash] at h
    cases h
    obtain ⟨rfl, hrest⟩ := hdash
    have hskip : skipComment ('-' :: rest) = skipComment rest := rfl
    refine .blank ?_ ?_
    · rw [skipBlanks_dash F hrest, skipBlanks_comment, hskip]
    · exact (List.drop_suffix 1 _).trans (List.dropWhile_suffix _)
  rw [if_neg hdash] at h
  have hopens : OpensToken F c rest := ⟨hspace, hdash⟩
  by_cases hquote : c = singleQuote
  · rw [if_pos hquote] at h
    obtain ⟨⟨value, left'⟩, hread, h⟩ := ExceptList.bind_eq_ok.mp h
    cases h
    obtain ⟨body, hrest, hvalue⟩ := readString_eq_ok hread
    rw [List.nil_append] at hvalue
    refine turn_word (singleQuote :: (escapeQuotes body ++ [singleQuote])) hopens
      (by simp [hquote]) ?_ (List.cons_ne_nil _ _) ?_ rfl
    · rw [hquote, hrest]
      simp
    · show _ = singleQuote :: (escapeQuotes value.toList ++ [singleQuote])
      rw [hvalue]
  rw [if_neg hquote] at h
  by_cases hnumber : startsNumber F (c :: rest) = true
  · rw [if_pos hnumber] at h
    cases h
    refine turn_word _ hopens ?_ (readNumber_append F false _).symm (readNumber_ne_nil F hnumber)
      (by simp [IsLexeme]) rfl
    rw [startsWord_cons, hnumber, Bool.or_true, Bool.true_or]
  rw [if_neg hnumber] at h
  by_cases hword : (isAlpha F c || c == '_') = true
  · rw [if_pos hword] at h
    have hstarts : startsWord F (c :: rest) = true := by
      rw [startsWord_cons, hword, Bool.or_true]
    split at h
    · cases h
      exact turn_word _ hopens hstarts (readIdentifier_append _).symm (readIdentifier_ne_nil hword)
        (by simp [IsLexeme]) rfl
    · cases h
      exact turn_word _ hopens hstarts (readIdentifier_append _).symm (readIdentifier_ne_nil hword)
        rfl rfl
  rw [if_neg hword] at h
  have hsymbol : startsWord F (c :: rest) = false := by
    rw [startsWord_cons, Bool.eq_false_iff.mpr hnumber, Bool.eq_false_iff.mpr hword]
    simpa using hquote
  by_cases hmulti : String.ofList ((c :: rest).take 2) ∈ multiCharOperators
  · rw [if_pos hmulti] at h
    cases h
    obtain ⟨a, b, htake, hb⟩ := multiChar_cases (F := F) hmulti
    cases rest with
    | nil => cases htake
    | cons d rest =>
        obtain ⟨-, hd⟩ : c = a ∧ d = b := by simpa using htake
        refine turn_symbol [c, d] hopens rfl (List.cons_ne_nil _ _) ?_ (Or.inl rfl) rfl ?_
        · simp
        · rw [wordFree_single hopens hsymbol, hd]
          exact wordFree_single (hb _).1 (hb _).2
  rw [if_neg hmulti] at h
  by_cases hsingle : c ∈ singleCharOperators
  · rw [if_pos hsingle] at h
    cases h
    exact turn_symbol [c] hopens rfl (List.cons_ne_nil _ _) (by simp) (Or.inl rfl) rfl
      (wordFree_single hopens hsymbol)
  rw [if_neg hsingle] at h
  by_cases hpunctuation : c ∈ punctuation
  · rw [if_pos hpunctuation] at h
    cases h
    exact turn_symbol [c] hopens rfl (List.cons_ne_nil _ _) (by simp) (Or.inr rfl) rfl
      (wordFree_single hopens hsymbol)
  · rw [if_neg hpunctuation] at h
    cases h

end Turns

section Loop

variable {F} {P Q : Token → List Char → List Char → Prop} {text : String}

lemma Segmented.of_skipBlanks {cs left : List Char} {tokens : List Token}
    (hblank : skipBlanks F false cs = skipBlanks F false left) (h : Segmented F P left tokens) :
    Segmented F P cs tokens := by
  cases tokens with
  | nil => exact hblank.trans h
  | cons token tokens =>
      obtain ⟨lexeme, left', hskip, h⟩ := h
      exact ⟨lexeme, left', hblank.trans hskip, h⟩

lemma Segmented.suffix {whole cs : List Char} {tokens : List Token} (hcs : cs <:+ whole)
    (h : Segmented F P cs tokens) :
    Segmented F (fun token lexeme left => P token lexeme left ∧ lexeme ++ left <:+ whole)
      cs tokens := by
  induction tokens generalizing cs with
  | nil => exact h
  | cons token tokens ih =>
      obtain ⟨lexeme, left, hskip, hne, hlexeme, hP, h⟩ := h
      have hsuffix : lexeme ++ left <:+ whole := by
        rw [← hskip]
        exact (skipBlanks_suffix F false cs).trans hcs
      exact ⟨lexeme, left, hskip, hne, hlexeme, ⟨hP, hsuffix⟩,
        ih ((List.suffix_append lexeme left).trans hsuffix) h⟩

lemma Segmented.imp (himp : ∀ token lexeme left, P token lexeme left → Q token lexeme left)
    {cs : List Char} {tokens : List Token} (h : Segmented F P cs tokens) :
    Segmented F Q cs tokens := by
  induction tokens generalizing cs with
  | nil => exact h
  | cons token tokens ih =>
      obtain ⟨lexeme, left, hskip, hne, hlexeme, hP, h⟩ := h
      exact ⟨lexeme, left, hskip, hne, hlexeme, himp _ _ _ hP, ih h⟩

/-- The loop segments what is left of the text. -/
theorem tokenizeLoop_segmented [PyRuntime F] {fuel : ℕ} {cs : List Char} {tokens : List Token}
    (h : tokenizeLoop F text fuel cs = .ok tokens) :
    ∃ recorded, tokens = recorded ++ [⟨.eof, "", text.length⟩] ∧
      Segmented F (Recorded F text) cs recorded := by
  induction fuel generalizing cs tokens with
  | zero =>
      cases cs with
      | nil =>
          cases h
          exact ⟨[], rfl, rfl⟩
      | cons c rest => cases h
  | succ fuel ih =>
      cases cs with
      | nil =>
          cases h
          exact ⟨[], rfl, rfl⟩
      | cons c rest =>
          obtain ⟨⟨found, left⟩, hnext, h⟩ := ExceptList.bind_eq_ok.mp h
          obtain ⟨tokens', hloop, h⟩ := ExceptList.bind_eq_ok.mp h
          cases h
          obtain ⟨recorded, rfl, hrecorded⟩ := ih hloop
          cases nextToken_turn hnext with
          | blank hblank _ => exact ⟨recorded, rfl, hrecorded.of_skipBlanks hblank⟩
          | @token token lexeme _ hstart happend hne hlexeme htoken =>
              refine ⟨token :: recorded, rfl, lexeme, left, ?_, hne, hlexeme, htoken, hrecorded⟩
              rw [hstart, happend]

/-- In a text without words every token is recorded where it starts. -/
lemma Segmented.starts {cs : List Char} {tokens : List Token}
    (h : Segmented F (Recorded F text) cs tokens) (hfree : wordFree F false cs = true) :
    Segmented F (fun token lexeme left =>
      token.position = text.length - (lexeme ++ left).length) cs tokens := by
  induction tokens generalizing cs with
  | nil => exact h
  | cons token tokens ih =>
      obtain ⟨lexeme, left, hskip, hne, hlexeme, hrecorded, h⟩ := h
      rw [wordFree_skipBlanks, hskip] at hfree
      obtain ⟨-, hposition, hleft⟩ | ⟨-, hword⟩ := hrecorded
      · exact ⟨lexeme, left, hskip, hne, hlexeme, hposition, ih h (hleft ▸ hfree)⟩
      · rw [hfree] at hword
        cases hword

/-- Positions that count what is left increase, up to the end of the text. -/
lemma Segmented.increasing {n : ℕ} {cs : List Char} {tokens : List Token} (hcs : cs.length ≤ n)
    (h : Segmented F (fun token lexeme left => token.position = n - (lexeme ++ left).length)
      cs tokens) :
    (∀ p ∈ tokens.map Token.position, n - cs.length ≤ p) ∧
      (tokens.map Token.position ++ [n]).Pairwise (· < ·) := by
  induction tokens generalizing cs with
  | nil => simp
  | cons token tokens ih =>
      obtain ⟨lexeme, left, hskip, hne, -, hposition, h⟩ := h
      have hlength : (lexeme ++ left).length ≤ cs.length := by
        rw [← hskip]
        exact (skipBlanks_suffix F false cs).length_le
      have hpos : 0 < lexeme.length := List.length_pos_of_ne_nil hne
      rw [List.length_append] at hlength hposition
      obtain ⟨hlater, hsorted⟩ := ih (by omega : left.length ≤ n) h
      constructor
      · intro p hp
        rcases List.mem_cons.mp hp with rfl | hp
        · omega
        · have := hlater p hp
          omega
      · refine List.pairwise_cons.mpr ⟨fun p hp => ?_, hsorted⟩
        rcases List.mem_append.mp hp with hp | hp
        · have := hlater p hp
          omega
        · have := List.mem_singleton.mp hp
          omega

/-- A segmentation in which every token is located has no words. -/
lemma Segmented.wordFree {cs : List Char} {tokens : List Token}
    (h : Segmented F (Recorded F text) cs tokens)
    (hstarts : Segmented F (StartsAt text) cs tokens) :
    wordFree F false cs = true := by
  induction tokens generalizing cs with
  | nil =>
      have hnil : skipBlanks F false cs = [] := h
      rw [wordFree_skipBlanks, hnil]
      rfl
  | cons token tokens ih =>
      obtain ⟨lexeme, left, hskip, hne, hlexeme, hrecorded, h⟩ := h
      obtain ⟨lexeme', left', hskip', -, hlexeme', hstart, hstarts⟩ := hstarts
      have happend : lexeme ++ left = lexeme' ++ left' := hskip.symm.trans hskip'
      rw [wordFree_skipBlanks, hskip]
      obtain ⟨hsymbol, -, hleft⟩ | ⟨hposition, -⟩ := hrecorded
      · have hvalue : lexeme = lexeme' := by
          unfold IsLexeme at hlexeme hlexeme'
          obtain htype | htype := hsymbol <;> rw [htype] at hlexeme hlexeme' <;>
            exact hlexeme.trans hlexeme'.symm
        rw [hvalue] at happend
        obtain rfl := List.append_cancel_left happend
        rw [hleft]
        exact ih h hstarts
      · have hlength := congrArg List.length hstart
        rw [← happend, List.length_drop, List.length_append, String.length_toList] at hlength
        have hpos : 0 < lexeme.length := List.length_pos_of_ne_nil hne
        omega

end Loop

section Positions

variable {F} [PyRuntime F] {text : String} {tokens : List Token}

/-- Positions locate the tokens of a text exactly when it has no string, number or word
outside comments. -/
theorem tokenize_locatesSource_iff (h : tokenize F text = .ok tokens) :
    LocatesSource F text tokens ↔ wordFree F false text.toList = true := by
  obtain ⟨recorded, rfl, hrecorded⟩ := tokenizeLoop_segmented h
  constructor
  · rintro ⟨⟨located, eof, happend, -, hlocated⟩, -⟩
    rw [List.append_inj_left' happend rfl] at hrecorded
    exact hrecorded.wordFree hlocated
  · intro hfree
    have hstarts := hrecorded.starts hfree
    constructor
    · refine ⟨recorded, _, rfl, rfl, (hstarts.suffix List.suffix_rfl).imp ?_⟩
      rintro token lexeme left ⟨hposition, hsuffix⟩
      rw [StartsAt, hposition, ← String.length_toList]
      exact (List.suffix_iff_eq_drop.mp hsuffix).symm
    · rw [List.map_append]
      exact (hstarts.increasing (by rw [String.length_toList])).2

/-- A word is recorded at its end. -/
theorem tokenize_word_position :
    tokenize ℚ "a " = .ok [⟨.identifier, "a", 1⟩, ⟨.eof, "", 2⟩] ∧
      ¬ LocatesSource ℚ "a " [⟨.identifier, "a", 1⟩, ⟨.eof, "", 2⟩] := by
  refine ⟨by decide, ?_⟩
  rintro ⟨⟨located, eof, happend, -, hlocated⟩, -⟩
  replace happend : [⟨.identifier, "a", 1⟩] ++ [⟨.eof, "", 2⟩] = located ++ [eof] := happend
  rw [← List.append_inj_left' happend rfl] at hlocated
  obtain ⟨lexeme, left, hskip, -, -, hstart, -⟩ := hlocated
  have hdrop : "a ".toList.drop 1 = lexeme ++ left := hstart
  have hlength := congrArg List.length (hdrop.trans hskip.symm)
  exact absurd hlength (by decide)

/-- The theorem applied to a text of symbols and a comment with a word. -/
theorem tokenize_symbols_locatesSource :
    LocatesSource ℚ "(<= --a" [⟨.punctuation, "(", 0⟩, ⟨.operator, "<=", 1⟩, ⟨.eof, "", 7⟩] ↔
      wordFree ℚ false "(<= --a".toList = true :=
  tokenize_locatesSource_iff (by decide)

end Positions

end MiniSpark
