import Mathlib.Data.List.TakeWhile
import MiniSpark.Outcome
import MiniSpark.SqlAggregates

/-!
# What the SQL front end raises

Every loop of the tokenizer uses up a character, and every loop and every nested rule of
the parser a token; the last token is never stepped over. So a query is parsed or refused
with a syntax error, unless a number of the query has no value.
-/
namespace MiniSpark

open Outcome

variable {F : Type}

section Scanning

/-- `SqlSyntaxError` and its subclasses. -/
def SqlError.IsSyntaxError : SqlError → Prop
  | .lexError _ => True
  | .parseError _ => True
  | _ => False

instance : DecidablePred SqlError.IsSyntaxError
  | .lexError _ => .isTrue trivial
  | .parseError _ => .isTrue trivial
  | .raised _ => .isFalse id
  | .outOfFuel => .isFalse id

/-- The last token is the end of the text. -/
def EndsInEof : List Token → Prop
  | [] => False
  | [t] => t.type = .eof
  | _ :: ts => EndsInEof ts

lemma EndsInEof.cons {t : Token} {ts : List Token} (h : EndsInEof ts) : EndsInEof (t :: ts) := by
  cases ts with
  | nil => exact h.elim
  | cons u ts => exact h

/-- A token that is not the end of the text is followed by others. -/
lemma EndsInEof.tail {t : Token} {ts : List Token} (h : EndsInEof (t :: ts))
    (ht : t.type ≠ .eof) : EndsInEof ts := by
  cases ts with
  | nil => exact absurd h ht
  | cons u ts => exact h

lemma EndsInEof.length_pos {ts : List Token} (h : EndsInEof ts) : 0 < ts.length := by
  cases ts with
  | nil => exact h.elim
  | cons t ts => exact Nat.succ_pos _

/-- A scan leaves no more than it found, and fails with a syntax error. -/
abbrev Leaves {α : Type} (most : ℕ) (x : Except SqlError (α × List Char)) : Prop :=
  Meets SqlError.IsSyntaxError (fun r => r.2.length ≤ most) x

lemma readString_leaves (start : ℕ) (chars rest : List Char) :
    Leaves rest.length (readString start chars rest) := by
  fun_induction readString start chars rest with
  | case1 chars => trivial
  | case2 chars rest' ih => exact ih.imp (fun _ h => h) (fun r h => by simp; omega)
  | case3 chars d rest' h => exact Nat.le_succ _
  | case4 chars => exact Nat.zero_le _
  | case5 chars c rest h ih => exact ih.imp (fun _ h => h) (fun r h => by simp; omega)

variable [PyText F]

lemma readNumber_leaves (sawDot : Bool) (text : List Char) :
    (readNumber F sawDot text).2.length ≤ text.length := by
  fun_induction readNumber F sawDot text with
  | case1 => exact Nat.le_refl _
  | case2 sawDot c rest h tail ih => exact Nat.le_succ_of_le ih
  | case3 => exact Nat.le_refl _

/-- A number uses up its first character. -/
lemma readNumber_uses {c : Char} {rest : List Char} (h : startsNumber F (c :: rest) = true) :
    (readNumber F false (c :: rest)).2.length ≤ rest.length := by
  have hfirst : (isDigit F c || (c == '.' && !false)) = true := by
    simp only [startsNumber, Bool.or_eq_true, Bool.and_eq_true] at h ⊢
    exact h.imp_right (fun h => ⟨h.1, rfl⟩)
  rw [readNumber, if_pos hfirst]
  exact readNumber_leaves _ rest

/-- An identifier uses up its first character. -/
lemma readIdentifier_uses {c : Char} {rest : List Char}
    (h : (isAlpha F c || c == '_') = true) :
    (readIdentifier F (c :: rest)).2.length ≤ rest.length := by
  have hc : (isAlnum F c || c == '_') = true := by
    rw [Bool.or_eq_true] at h ⊢
    exact h.imp_left (isAlnum_of_isAlpha F)
  have hdrop : (readIdentifier F (c :: rest)).2 =
      rest.dropWhile (fun c => isAlnum F c || c == '_') :=
    List.dropWhile_cons_of_pos (p := fun c => isAlnum F c || c == '_') hc
  rw [hdrop]
  exact (List.dropWhile_suffix _).length_le

/-- A comment uses up its first character. -/
lemma skipComment_uses {c : Char} {rest : List Char} (h : c = '-') :
    (skipComment (c :: rest)).length ≤ rest.length := by
  have hdrop : (c :: rest).dropWhile (· != '\n') = rest.dropWhile (· != '\n') :=
    List.dropWhile_cons_of_pos (p := (· != '\n')) (by rw [h]; decide)
  rw [skipComment, hdrop, List.length_drop]
  have := (List.dropWhile_suffix (p := (· != '\n')) (l := rest)).length_le
  omega

variable [PyRuntime F]

/-- A turn of the tokenizer's loop uses up a character, and its token is not the last. -/
lemma nextToken_meets (text : String) (c : Char) (rest : List Char) :
    Meets SqlError.IsSyntaxError
      (fun r => r.2.length ≤ rest.length ∧ ∀ t ∈ r.1, t.type ≠ .eof)
      (nextToken F text c rest) := by
  unfold nextToken
  by_cases h1 : isSpace F c = true
  · rw [if_pos h1]
    exact ⟨Nat.le_refl _, by simp⟩
  rw [if_neg h1]
  by_cases h2 : c = '-' ∧ rest.head? = some '-'
  · rw [if_pos h2]
    exact ⟨skipComment_uses h2.1, by simp⟩
  rw [if_neg h2]
  by_cases h3 : c = singleQuote
  · rw [if_pos h3]
    exact (readString_leaves _ _ rest).bind (fun r hr => ⟨hr, by simp⟩)
  rw [if_neg h3]
  by_cases h4 : startsNumber F (c :: rest) = true
  · rw [if_pos h4]
    exact ⟨readNumber_uses h4, by simp⟩
  rw [if_neg h4]
  by_cases h5 : (isAlpha F c || c == '_') = true
  · rw [if_pos h5]
    dsimp only
    split
    · exact ⟨readIdentifier_uses h5, by simp⟩
    · exact ⟨readIdentifier_uses h5, by simp⟩
  rw [if_neg h5]
  split
  · exact ⟨by rw [List.length_drop]; omega, by simp⟩
  split
  · exact ⟨Nat.le_refl _, by simp⟩
  split
  · exact ⟨Nat.le_refl _, by simp⟩
  · trivial

end Scanning

/-- What the parser raises: a syntax error, or what the interpreter raises for an
expression that does not print, if there is one. -/
def SqlError.IsRaised (unprinted : Prop) : SqlError → Prop
  | .raised _ => unprinted
  | .outOfFuel => False
  | _ => True

/-- The texts of the numbers among the tokens. -/
def numberTexts (tokens : List Token) : List String :=
  (tokens.filter (fun t => t.type = .number)).map Token.value

lemma numberTexts_cons {t : Token} {ts : List Token} (h : t.type ≠ .number) :
    numberTexts (t :: ts) = numberTexts ts := by
  rw [numberTexts, List.filter_cons_of_neg (by simpa using h)]
  rfl

section Reading

/-- On these tokens a parser returns having used up at least `least` of them, or fails.
It asks for the values of the numbers in their order, and for no others. -/
structure ReadsAt {α : Type} (unprinted : Prop) (answer : String → Value F) (least : ℕ)
    (p : SqlParse F α) (ts : List Token) : Prop where
  meets : Meets (SqlError.IsRaised unprinted)
    (fun r => EndsInEof r.2 ∧ r.2.length + least ≤ ts.length ∧
      (p ts).asked answer ++ numberTexts r.2 = numberTexts ts)
    (Asks.run (fun q => .ok (answer q)) (p ts))
  asks : (p ts).asked answer <+: numberTexts ts

/-- The same on every list of at most so many tokens. -/
def Reads {α : Type} (unprinted : Prop) (answer : String → Value F) (most least : ℕ)
    (p : SqlParse F α) : Prop :=
  ∀ ts, EndsInEof ts → ts.length ≤ most → ReadsAt unprinted answer least p ts

variable {α β : Type} {unprinted : Prop} {answer : String → Value F} {most least : ℕ}

lemma Reads.mono {most' least' : ℕ} {p : SqlParse F α} (h : Reads unprinted answer most least p)
    (hmost : most' ≤ most) (hleast : least' ≤ least) : Reads unprinted answer most' least' p := by
  intro ts hend hlen
  have hp := h ts hend (hlen.trans hmost)
  refine ⟨hp.meets.imp (fun _ he => he) (fun r hr => ⟨hr.1, ?_, hr.2.2⟩), hp.asks⟩
  have := hr.2.1
  omega

/-- What the first parser leaves is read by the second, which knows what the first returns. -/
lemma Reads.bind_of_produces {P : α → Prop} {p : SqlParse F α} {f : α → SqlParse F β} {used : ℕ}
    (h : Reads unprinted answer most used p) (hp : Produces (fun q => .ok (answer q)) P p)
    (hf : ∀ a, P a → Reads unprinted answer (most - used) (least - used) (f a)) :
    Reads unprinted answer most least (p >>= f) := by
  intro ts hend hlen
  have hfirst := h ts hend hlen
  cases hrun : Asks.run (fun q => .ok (answer q)) (p ts) with
  | error e =>
      have hwhole : Asks.run (fun q => .ok (answer q)) ((p >>= f) ts) = .error e := by
        show Asks.run _ (p ts >>= fun r => f r.1 r.2) = _
        rw [Asks.run_bind, hrun]
        rfl
      have hasked : ((p >>= f) ts).asked answer = (p ts).asked answer :=
        Asks.asked_bind_of_error hrun
      refine ⟨?_, hasked ▸ hfirst.asks⟩
      rw [hwhole]
      exact hfirst.meets.of_error hrun
  | ok r =>
      obtain ⟨hend', hleft, hasks⟩ := hfirst.meets.of_ok hrun
      have hsecond := hf r.1 (hp.of_returns hrun) r.2 hend' (by omega)
      have hwhole : Asks.run (fun q => .ok (answer q)) ((p >>= f) ts) =
          Asks.run (fun q => .ok (answer q)) (f r.1 r.2) := by
        show Asks.run _ (p ts >>= fun r => f r.1 r.2) = _
        rw [Asks.run_bind, hrun]
        rfl
      have hasked : ((p >>= f) ts).asked answer =
          (p ts).asked answer ++ (f r.1 r.2).asked answer := Asks.asked_bind_of_ok hrun
      constructor
      · rw [hwhole, hasked]
        refine hsecond.meets.imp (fun _ he => he) (fun r' hr' => ⟨hr'.1, ?_, ?_⟩)
        · have := hr'.2.1
          omega
        · rw [List.append_assoc, hr'.2.2, hasks]
      · rw [hasked, ← hasks]
        exact (List.prefix_append_right_inj _).mpr hsecond.asks

/-- What the first parser leaves is read by the second. -/
lemma Reads.bind {p : SqlParse F α} {f : α → SqlParse F β} {used : ℕ}
    (h : Reads unprinted answer most used p)
    (hf : ∀ a, Reads unprinted answer (most - used) (least - used) (f a)) :
    Reads unprinted answer most least (p >>= f) :=
  h.bind_of_produces (P := fun _ => True) ⟨fun _ => trivial⟩ (fun a _ => hf a)

/-- There is always a token. -/
lemma reads_zero (p : SqlParse F α) : Reads unprinted answer 0 least p := by
  intro ts hend hlen
  have := hend.length_pos
  omega

/-- Look at the current token. -/
lemma reads_current {f : Token → SqlParse F β}
    (h : ∀ t ts, EndsInEof (t :: ts) → (t :: ts).length ≤ most →
      ReadsAt unprinted answer least (f t) (t :: ts)) : Reads unprinted answer most least (current >>= f) := by
  intro ts hend hlen
  cases ts with
  | nil => exact hend.elim
  | cons t ts =>
      have hf := h t ts hend hlen
      have hstep : (current >>= f) (t :: ts) = f t (t :: ts) := bind_of_done (current_cons t ts)
      exact ⟨by rw [hstep]; exact hf.meets, by rw [hstep]; exact hf.asks⟩

/-- Step over a token that is neither the last nor a number. -/
lemma Reads.advance {f : Token → SqlParse F β} {t : Token} {ts : List Token}
    (h : Reads unprinted answer (most - 1) (least - 1) (f t))
    (ht : t.type ≠ .eof ∧ t.type ≠ .number)
    (hend : EndsInEof (t :: ts)) (hlen : (t :: ts).length ≤ most) :
    ReadsAt unprinted answer least (MiniSpark.advance >>= f) (t :: ts) := by
  rw [List.length_cons] at hlen
  have hf := h ts (hend.tail ht.1) (by omega)
  have hstep : (MiniSpark.advance >>= f) (t :: ts) = f t ts := bind_of_done (advance_cons ts ht.1)
  constructor
  · rw [hstep, numberTexts_cons ht.2]
    refine hf.meets.imp (fun _ he => he) (fun r hr => ⟨hr.1, ?_, hr.2.2⟩)
    have := hr.2.1
    rw [List.length_cons]
    omega
  · rw [hstep, numberTexts_cons ht.2]
    exact hf.asks

variable [PyRuntime F]

end Reading

section Levels

variable {unprinted : Prop} {answer : String → Value F} {most : ℕ}
variable {expr : SqlParse F (Expression F)}

/-- The loop of a level uses up its operators and operands. -/
lemma reads_leftChain {operator : Token → Option (Expression F → Expression F → Expression F)}
    {operand : SqlParse F (Expression F)} (hop : ∀ t, t.type = .eof ∨ t.type = .number → operator t = none)
    (h : Reads unprinted answer most 1 operand) {fuel : ℕ} (hfuel : fuel ≤ most) (left : Expression F) :
    Reads unprinted answer fuel 0 (leftChain operator operand fuel left) := by
  induction fuel generalizing left with
  | zero => exact reads_zero _
  | succ fuel ih =>
      refine reads_current (fun t ts hend hlen => ?_)
      cases hoperator : operator t with
      | none => exact ⟨⟨hend, Nat.le_refl _, rfl⟩, List.nil_prefix⟩
      | some combine =>
          have hne : t.type ≠ .eof ∧ t.type ≠ .number := not_or.mp (fun h => by
            rw [hop t h] at hoperator
            cases hoperator)
          refine Reads.advance ?_ hne hend hlen
          refine (h.mono (by omega) (Nat.le_refl 1)).bind (fun right => ?_)
          exact (ih (by omega) _).mono (by omega) (Nat.zero_le _)

/-- A level with its loop. -/
lemma Reads.chain {operator : Token → Option (Expression F → Expression F → Expression F)}
    {operand : SqlParse F (Expression F)} (hop : ∀ t, t.type = .eof ∨ t.type = .number → operator t = none)
    (h : Reads unprinted answer most 1 operand) :
    Reads unprinted answer most 1 (operand >>= leftChain operator operand most) := by
  refine h.bind (fun left => ?_)
  exact (reads_leftChain hop h (Nat.le_refl most) left).mono (Nat.sub_le _ _) (Nat.le_refl 0)

variable [PyRuntime F] [PyText F]

end Levels

section Statement

variable {α : Type} [PyRuntime F] {unprinted : Prop} {answer : String → Value F}
  {most least fuel : ℕ}

section Products

variable {number : String → Except SqlError (Value F)} {P : LogicalPlan F → Prop}

variable [PyText F] (hnumber : ∀ text v, number text = .ok v → v.prints = true)
include hnumber

end Products

variable [PyText F]

end Statement

section Numbers

/-- A traversal of optional values has a result when every element has, one for each. -/
lemma mapM_isSome {α β : Type} {f : α → Option β} {as : List α} :
    (∃ bs, as.mapM f = some bs) ↔ ∀ a ∈ as, (f a).isSome = true := by
  induction as with
  | nil => simp
  | cons a as ih =>
      rw [List.mapM_cons, List.forall_mem_cons, ← ih]
      cases f a with
      | none => simp
      | some b => cases as.mapM f <;> simp

lemma mapM_length {α β : Type} {f : α → Option β} {as : List α} {bs : List β}
    (h : as.mapM f = some bs) : bs.length = as.length := by
  induction as generalizing bs with
  | nil =>
      cases h
      rfl
  | cons a as ih =>
      rw [List.mapM_cons] at h
      cases ha : f a with
      | none => simp [ha] at h
      | some b =>
          cases has : as.mapM f with
          | none => simp [ha, has] at h
          | some bs' =>
              simp only [ha, has, Option.bind_eq_bind, Option.bind_some, Option.pure_def,
                Option.some.injEq] at h
              rw [← h, List.length_cons, List.length_cons, ih has]

variable (F : Type) [PyRuntime F] [PyText F]

/-- Decimal digits with at most one point; without one, no more of them than an int may have. -/
def Convertible (text : String) : Prop :=
  text.toList.count '.' ≤ 1 ∧ (∃ c ∈ text.toList, c ≠ '.') ∧
    (∀ c ∈ text.toList, c ≠ '.' → (decimalDigit F c).isSome = true) ∧
    ('.' ∉ text.toList → ∀ limit ∈ PyRuntime.intMaxStrDigits F, text.toList.length ≤ limit)

omit [PyRuntime F] in
lemma decimalDigit_point : decimalDigit F '.' = none := rfl

lemma intOfText_ok_iff {text : String} (hpoint : '.' ∉ text.toList) :
    (∃ i, intOfText F text = .ok i) ↔ Convertible F text := by
  have hne : ∀ c ∈ text.toList, c ≠ '.' := fun c hc he => hpoint (he ▸ hc)
  have hconv : Convertible F text ↔ text.toList ≠ [] ∧
      (∀ c ∈ text.toList, (decimalDigit F c).isSome = true) ∧
      ∀ limit ∈ PyRuntime.intMaxStrDigits F, text.toList.length ≤ limit := by
    unfold Convertible
    rw [List.count_eq_zero.mpr hpoint]
    constructor
    · rintro ⟨-, ⟨c, hc, -⟩, hdigits, hlimit⟩
      exact ⟨List.ne_nil_of_mem hc, fun c hc => hdigits c hc (hne c hc), hlimit hpoint⟩
    · rintro ⟨hnil, hdigits, hlimit⟩
      obtain ⟨c, hc⟩ := List.exists_mem_of_ne_nil _ hnil
      exact ⟨Nat.zero_le 1, ⟨c, hc, hne c hc⟩, fun c hc _ => hdigits c hc, fun _ => hlimit⟩
  rw [hconv]
  unfold intOfText
  cases hdigits : text.toList.mapM (decimalDigit F) with
  | none =>
      refine iff_of_false (by simp) (fun h => ?_)
      obtain ⟨bs, hbs⟩ := mapM_isSome.mpr h.2.1
      rw [hdigits] at hbs
      cases hbs
  | some digits =>
      have hall := mapM_isSome.mp ⟨digits, hdigits⟩
      have hlen := mapM_length hdigits
      cases digits with
      | nil =>
          refine iff_of_false (by simp) (fun h => h.1 ?_)
          exact List.length_eq_zero_iff.mp hlen.symm
      | cons d digits =>
          have hnil : text.toList ≠ [] := by
            rintro he
            rw [he] at hlen
            cases hlen
          cases hlimit : PyRuntime.intMaxStrDigits F with
          | none => exact iff_of_true ⟨_, rfl⟩ ⟨hnil, hall, by simp⟩
          | some limit =>
              dsimp only
              split
              · next hlt => exact iff_of_false (by simp) (fun h => by
                  have := h.2.2 limit rfl
                  omega)
              · next hle => exact iff_of_true ⟨_, rfl⟩ ⟨hnil, hall, fun l hl => by
                  cases hl
                  omega⟩

/-- A text with a point, at its first point. -/
lemma exists_firstPoint {cs : List Char} (h : '.' ∈ cs) :
    cs = cs.takeWhile (· != '.') ++ '.' :: (cs.dropWhile (· != '.')).drop 1 := by
  have hsplit := List.takeWhile_append_dropWhile (p := (· != '.')) (l := cs)
  cases hdrop : cs.dropWhile (· != '.') with
  | nil =>
      have := List.dropWhile_eq_nil_iff.mp hdrop '.' h
      exact absurd this (by decide)
  | cons c post =>
      have hc := List.head?_dropWhile_not (· != '.') cs
      rw [hdrop] at hc
      obtain rfl : c = '.' := by simpa using hc
      rw [hdrop] at hsplit
      exact hsplit.symm

lemma floatOfText_ok_iff {text : String} (hpoint : '.' ∈ text.toList) :
    (∃ x, floatOfText F text = .ok x) ↔ Convertible F text := by
  set whole := text.toList.takeWhile (· != '.') with hwhole
  set fraction := (text.toList.dropWhile (· != '.')).drop 1 with hfraction
  have htext : text.toList = whole ++ '.' :: fraction := exists_firstPoint hpoint
  have hne : ∀ c ∈ whole, c ≠ '.' := by
    intro c hc
    simpa using List.mem_takeWhile_imp hc
  have hconv : Convertible F text ↔ (∀ c ∈ whole, (decimalDigit F c).isSome = true) ∧
      (∀ c ∈ fraction, (decimalDigit F c).isSome = true) ∧ ¬ (whole = [] ∧ fraction = []) := by
    unfold Convertible
    constructor
    · rintro ⟨hcount, ⟨c, hc, hcne⟩, hdigits, -⟩
      have hfree : '.' ∉ fraction := by
        rw [htext, List.count_append, List.count_cons_self] at hcount
        exact List.count_eq_zero.mp (by omega)
      rw [htext] at hdigits hc
      refine ⟨fun c hc => hdigits c (List.mem_append_left _ hc) (hne c hc), fun c hc => ?_, ?_⟩
      · exact hdigits c (List.mem_append_right _ (List.mem_cons_of_mem _ hc))
          (fun he => hfree (he ▸ hc))
      · rintro ⟨hw, hf⟩
        rw [hw, hf] at hc
        exact hcne (List.mem_singleton.mp hc)
    · rintro ⟨hw, hf, hnil⟩
      have hfree : '.' ∉ fraction := fun he => by
        have := hf '.' he
        rw [decimalDigit_point] at this
        cases this
      refine ⟨?_, ?_, ?_, fun h => absurd hpoint h⟩
      · rw [htext, List.count_append, List.count_cons_self, List.count_eq_zero.mpr hfree,
          List.count_eq_zero.mpr (fun he => hne '.' he rfl)]
      · by_cases hw' : whole = []
        · obtain ⟨c, hc⟩ := List.exists_mem_of_ne_nil _ (fun h => hnil ⟨hw', h⟩)
          refine ⟨c, ?_, fun he => hfree (he ▸ hc)⟩
          rw [htext]
          exact List.mem_append_right _ (List.mem_cons_of_mem _ hc)
        · obtain ⟨c, hc⟩ := List.exists_mem_of_ne_nil _ hw'
          refine ⟨c, ?_, hne c hc⟩
          rw [htext]
          exact List.mem_append_left _ hc
      · rw [htext]
        intro c hc hcne
        rcases List.mem_append.mp hc with hc | hc
        · exact hw c hc
        · exact hf c ((List.mem_cons.mp hc).resolve_left hcne)
  rw [hconv]
  unfold floatOfText
  rw [← hwhole, ← hfraction]
  cases hw : whole.mapM (decimalDigit F) with
  | none =>
      refine iff_of_false (by simp) (fun h => ?_)
      obtain ⟨bs, hbs⟩ := mapM_isSome.mpr h.1
      rw [hw] at hbs
      cases hbs
  | some w =>
      cases hf : fraction.mapM (decimalDigit F) with
      | none =>
          refine iff_of_false (by simp) (fun h => ?_)
          obtain ⟨bs, hbs⟩ := mapM_isSome.mpr h.2.1
          rw [hf] at hbs
          cases hbs
      | some f =>
          have hnil : w ++ f = [] ↔ whole = [] ∧ fraction = [] := by
            rw [List.append_eq_nil_iff, ← List.length_eq_zero_iff, ← List.length_eq_zero_iff,
              mapM_length hw, mapM_length hf, List.length_eq_zero_iff, List.length_eq_zero_iff]
          dsimp only
          by_cases hempty : w ++ f = []
          · rw [if_pos hempty]
            exact iff_of_false (by simp) (fun h => h.2.2 (hnil.mp hempty))
          · rw [if_neg hempty]
            exact iff_of_true ⟨_, rfl⟩ ⟨mapM_isSome.mp ⟨w, hw⟩, mapM_isSome.mp ⟨f, hf⟩,
              fun h => hempty (hnil.mpr h)⟩

/-- The texts that have a value. -/
theorem numberOfText_ok_iff (text : String) :
    (∃ v, numberOfText F text = .ok v) ↔ Convertible F text := by
  unfold numberOfText
  by_cases hpoint : '.' ∈ text.toList
  · rw [if_pos hpoint, ← floatOfText_ok_iff F hpoint]
    cases floatOfText F text with
    | ok x => exact iff_of_true ⟨_, rfl⟩ ⟨x, rfl⟩
    | error e => exact iff_of_false (fun ⟨v, h⟩ => by cases h) (fun ⟨v, h⟩ => by cases h)
  · rw [if_neg hpoint, ← intOfText_ok_iff F hpoint]
    cases intOfText F text with
    | ok x => exact iff_of_true ⟨_, rfl⟩ ⟨x, rfl⟩
    | error e => exact iff_of_false (fun ⟨v, h⟩ => by cases h) (fun ⟨v, h⟩ => by cases h)

end Numbers

section Totality

variable [PyRuntime F] [PyText F]

/-- The value of a number, and of a text without one any value. -/
def numberOrNone (text : String) : Value F :=
  match numberOfText F text with
  | .ok v => v
  | .error _ => .none

lemma pyNumber_eq_ok {text : String} {v : Value F} (h : pyNumber text = .ok v) :
    v = numberOrNone text := by
  unfold pyNumber at h
  unfold numberOrNone
  cases hn : numberOfText F text with
  | ok w =>
      rw [hn] at h
      cases h
      rfl
  | error e =>
      rw [hn] at h
      cases h

lemma pyNumber_of_not_convertible {text : String} (h : ¬ Convertible F text) :
    ∃ e, (pyNumber text : Except SqlError (Value F)) = .error (.raised e) := by
  unfold pyNumber
  cases hn : numberOfText F text with
  | ok v => exact absurd ((numberOfText_ok_iff F text).mp ⟨v, hn⟩) h
  | error e => exact ⟨e, rfl⟩

end Totality

section Examples

end Examples

end MiniSpark
