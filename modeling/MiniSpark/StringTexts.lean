import Mathlib.Tactic.IntervalCases
import MiniSpark.ReprTexts

/-!
# Reading a string back from its text

A quoted text shows where it ends, and no two strings have the same one: the opening quote is
the closing one, and every escape says how long it is.
-/
namespace MiniSpark

open UniqueReading

section Hexadecimal

/-- The value of a hexadecimal digit. -/
def hexDigitValue (c : Char) : ℕ := if c.toNat ≤ 57 then c.toNat - 48 else c.toNat - 87

/-- The number that hexadecimal digits write. -/
def hexValue (digits : List Char) : ℕ := digits.foldl (fun n c => 16 * n + hexDigitValue c) 0

lemma hexDigitValue_digitChar {d : ℕ} (h : d < 16) : hexDigitValue (Nat.digitChar d) = d := by
  interval_cases d <;> rfl

lemma hexValue_toDigits (n : ℕ) : hexValue (Nat.toDigits 16 n) = n := by
  induction n using Nat.strong_induction_on with
  | h n ih =>
    by_cases hn : n < 16
    · rw [Nat.toDigits_of_lt_base hn]
      show 16 * 0 + hexDigitValue n.digitChar = n
      rw [hexDigitValue_digitChar hn, Nat.mul_zero, Nat.zero_add]
    · have hrest := ih (n / 16) (by omega)
      rw [Nat.toDigits_of_base_le (by decide) (by omega), hexValue, List.foldl_append]
      show 16 * hexValue (Nat.toDigits 16 (n / 16)) + hexDigitValue (n % 16).digitChar = n
      rw [hrest, hexDigitValue_digitChar (Nat.mod_lt n (by decide))]
      omega

lemma hexValue_hexDigits (width n : ℕ) : hexValue (hexDigits width n) = n := by
  have hzeros : ∀ k : ℕ, (List.replicate k '0').foldl (fun n c => 16 * n + hexDigitValue c) 0 = 0 := by
    intro k
    induction k with
    | zero => rfl
    | succ k ih => exact ih
  show hexValue (List.replicate _ '0' ++ Nat.toDigits 16 n) = n
  rw [hexValue, List.foldl_append, hzeros]
  exact hexValue_toDigits n

/-- A number that fits is padded to the width. -/
lemma length_hexDigits {width n : ℕ} (hwidth : 0 < width) (h : n < 16 ^ width) :
    (hexDigits width n).length = width := by
  have hlen := (Nat.length_toDigits_le_iff (b := 16) (by decide) hwidth).mpr h
  show (List.replicate (width - (Nat.toDigits 16 n).length) '0' ++ Nat.toDigits 16 n).length = width
  rw [List.length_append, List.length_replicate]
  omega

end Hexadecimal

section Escapes

/-- What follows the backslash of an escaped character. -/
inductive Escape (quote : Char) : Char → List Char → Prop
  | quote : Escape quote quote [quote]
  | backslash : Escape quote backslash [backslash]
  | tab : Escape quote '\t' ['t']
  | newline : Escape quote '\n' ['n']
  | carriageReturn : Escape quote '\r' ['r']
  | hex {c tag : Char} {width : ℕ} : (tag, width) ∈ [('x', 2), ('u', 4), ('U', 8)] →
      c.toNat < 16 ^ width → Escape quote c (tag :: hexDigits width c.toNat)

lemma reprChar_cases (isPrintable : Char → Bool) (quote c : Char) :
    (reprChar isPrintable quote c = [c] ∧ c ≠ quote ∧ c ≠ backslash) ∨
      ∃ l, reprChar isPrintable quote c = backslash :: l ∧ Escape quote c l := by
  have hmax : c.toNat < 16 ^ 8 := by
    show c.val.toNat < 16 ^ 8
    obtain h | ⟨-, h⟩ := c.valid
    · exact lt_trans h (by decide)
    · exact lt_trans h (by decide)
  unfold reprChar
  split
  · next h =>
      obtain rfl | rfl := h
      · exact Or.inr ⟨_, rfl, .quote⟩
      · exact Or.inr ⟨_, rfl, .backslash⟩
  next hplain =>
  obtain ⟨hquote, hslash⟩ := not_or.mp hplain
  repeat' split
  · next h => exact Or.inr ⟨_, rfl, h ▸ .tab⟩
  · next h => exact Or.inr ⟨_, rfl, h ▸ .newline⟩
  · next h => exact Or.inr ⟨_, rfl, h ▸ .carriageReturn⟩
  · next h => exact Or.inr ⟨_, rfl, .hex (by simp) (by omega)⟩
  · exact Or.inl ⟨rfl, hquote, hslash⟩
  · next h => exact Or.inr ⟨_, rfl, .hex (by simp) (by omega)⟩
  · next h => exact Or.inr ⟨_, rfl, .hex (by simp) (by omega)⟩
  · exact Or.inr ⟨_, rfl, .hex (by simp) hmax⟩

/-- The two quotes. -/
def IsQuote (c : Char) : Prop := c = singleQuote ∨ c = doubleQuote

/-- Read what follows a backslash. -/
def unescape (quote : Char) : List Char → Option (Char × List Char)
  | [] => none
  | tag :: rest =>
      if tag = quote ∨ tag = backslash then some (tag, rest)
      else if tag = 't' then some ('\t', rest)
      else if tag = 'n' then some ('\n', rest)
      else if tag = 'r' then some ('\r', rest)
      else
        let width := if tag = 'x' then 2 else if tag = 'u' then 4 else 8
        some (Char.ofNat (hexValue (rest.take width)), rest.drop width)

lemma unescape_hex {quote c tag : Char} {width : ℕ} (hwidth : 0 < width)
    (htag : ¬ (tag = quote ∨ tag = backslash)) (hletter : tag ∉ ['t', 'n', 'r'])
    (htagged : (if tag = 'x' then 2 else if tag = 'u' then 4 else 8) = width)
    (hc : c.toNat < 16 ^ width) (s : List Char) :
    unescape quote (tag :: hexDigits width c.toNat ++ s) = some (c, s) := by
  have hlen : (hexDigits width c.toNat).length = width := length_hexDigits hwidth hc
  simp only [List.mem_cons, List.not_mem_nil, or_false, not_or] at hletter
  rw [List.cons_append, unescape, if_neg htag, if_neg hletter.1, if_neg hletter.2.1,
    if_neg hletter.2.2]
  dsimp only
  rw [htagged, List.take_left' hlen, List.drop_left' hlen, hexValue_hexDigits, Char.ofNat_toNat]

/-- An escape is read back, whatever follows. -/
lemma unescape_escape {quote c : Char} {l : List Char} (hquote : IsQuote quote)
    (h : Escape quote c l) (s : List Char) : unescape quote (l ++ s) = some (c, s) := by
  have hletter : ∀ tag ∈ ['t', 'n', 'r', 'x', 'u', 'U'], ¬ (tag = quote ∨ tag = backslash) := by
    obtain rfl | rfl := hquote
    all_goals simp [singleQuote, doubleQuote, backslash]
  cases h with
  | quote => exact if_pos (Or.inl rfl)
  | backslash => exact if_pos (Or.inr rfl)
  | tab =>
      rw [List.singleton_append, unescape, if_neg (hletter 't' (by simp)), if_pos rfl]
  | newline =>
      rw [List.singleton_append, unescape, if_neg (hletter 'n' (by simp)), if_neg (by decide),
        if_pos rfl]
  | carriageReturn =>
      rw [List.singleton_append, unescape, if_neg (hletter 'r' (by simp)), if_neg (by decide),
        if_neg (by decide), if_pos rfl]
  | hex htag hc =>
      simp only [List.mem_cons, Prod.mk.injEq, List.not_mem_nil, or_false] at htag
      obtain ⟨rfl, rfl⟩ | ⟨rfl, rfl⟩ | ⟨rfl, rfl⟩ := htag
      · exact unescape_hex (by decide) (hletter 'x' (by simp)) (by decide) (by decide) hc s
      · exact unescape_hex (by decide) (hletter 'u' (by simp)) (by decide) (by decide) hc s
      · exact unescape_hex (by decide) (hletter 'U' (by simp)) (by decide) (by decide) hc s

/-- The text of a character, between quotes of one kind. -/
lemma reprChar_prefixFree (isPrintable : Char → Bool) {quote : Char} (hquote : IsQuote quote) :
    PrefixFree (reprChar isPrintable quote) := by
  intro c d s t h
  obtain ⟨hc, hcq, hcs⟩ | ⟨l, hc, hl⟩ := reprChar_cases isPrintable quote c
  · obtain ⟨hd, -, -⟩ | ⟨m, hd, -⟩ := reprChar_cases isPrintable quote d
    · rw [hc, hd] at h
      exact List.cons_eq_cons.mp h
    · rw [hc, hd] at h
      exact absurd (List.cons_eq_cons.mp h).1 hcs
  · obtain ⟨hd, -, hds⟩ | ⟨m, hd, hm⟩ := reprChar_cases isPrintable quote d
    · rw [hc, hd] at h
      exact absurd (List.cons_eq_cons.mp h).1.symm hds
    · rw [hc, hd] at h
      have hrest : l ++ s = m ++ t := (List.cons_eq_cons.mp h).2
      have hread := unescape_escape hquote hl s
      rw [hrest, unescape_escape hquote hm t] at hread
      obtain ⟨rfl, rfl⟩ := Prod.mk.inj (Option.some.inj hread)
      exact ⟨rfl, rfl⟩

lemma reprChar_ne_quote (isPrintable : Char → Bool) {quote : Char} (hquote : IsQuote quote)
    (c : Char) (s t : List Char) : reprChar isPrintable quote c ++ s ≠ quote :: t := by
  intro h
  obtain ⟨hc, hcq, -⟩ | ⟨l, hc, -⟩ := reprChar_cases isPrintable quote c
  · rw [hc] at h
    exact hcq (List.cons_eq_cons.mp h).1
  · rw [hc] at h
    obtain rfl := (List.cons_eq_cons.mp h).1
    obtain hslash | hslash := hquote
    all_goals exact absurd hslash (by decide)

end Escapes

section Strings

/-- The quote that `repr` chooses. -/
def quoteOf (s : String) : Char :=
  if singleQuote ∈ s.toList ∧ doubleQuote ∉ s.toList then doubleQuote else singleQuote

lemma isQuote_quoteOf (s : String) : IsQuote (quoteOf s) := by
  unfold quoteOf
  split
  · exact Or.inr rfl
  · exact Or.inl rfl

lemma reprStr_toList (isPrintable : Char → Bool) (s : String) : (reprStr isPrintable s).toList =
    quoteOf s :: (s.toList.flatMap (reprChar isPrintable (quoteOf s)) ++ [quoteOf s]) :=
  String.toList_ofList

/-- A string is read back from its text, whatever follows. -/
theorem reprStr_prefixFree (isPrintable : Char → Bool) :
    PrefixFree (fun s => (reprStr isPrintable s).toList) := by
  intro a b s t h
  dsimp only at h
  rw [reprStr_toList, reprStr_toList, List.cons_append, List.cons_append, List.append_assoc,
    List.append_assoc] at h
  obtain ⟨hquote, h⟩ := List.cons_eq_cons.mp h
  rw [← hquote] at h
  have hcode := reprChar_prefixFree isPrintable (isQuote_quoteOf a)
  obtain ⟨hchars, hst⟩ :=
    hcode.flatMap (reprChar_ne_quote isPrintable (isQuote_quoteOf a)) h
  exact ⟨String.toList_inj.mp hchars, hst⟩

end Strings

end MiniSpark
