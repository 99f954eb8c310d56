import MiniSpark.Expression
import MiniSpark.StringTexts

/-!
# Reading an expression back from its text

Every text of an expression is a class name and what stands between its parentheses, so no two
expressions print the same, as long as the floats in one of them are not NaN.
-/
namespace MiniSpark

open UniqueReading

variable {F : Type} [PyRuntime F]

/-- Moreover a float is read back from its text, unless it is a NaN. -/
structure FloatReads (F : Type) [PyRuntime F] : Prop extends FloatTexts F where
  inj : ∀ x y : F, PyRuntime.eq x x = true → PyRuntime.reprFloat x = PyRuntime.reprFloat y → x = y

/-- A scalar that is no NaN. -/
def Value.Readable : Value F → Prop
  | .pair _ _ => False
  | .float x => PyRuntime.eq x x = true
  | _ => True

section Values

variable (hF : FloatReads F)
include hF

lemma text_inj_of_plain {v w : Value F} (hv : v.Readable) (hplain : v.IsPlain) (hplain' : w.IsPlain)
    (h : v.text = w.text) : v = w := by
  have htexts := hF.toFloatTexts
  cases v with
  | str s | pair a b => exact absurd hplain id
  | none =>
      cases w with
      | str s | pair a b => exact absurd hplain' id
      | none => rfl
      | bool c => exact absurd h.symm (reprBool_ne_none c)
      | int j => exact absurd h.symm (toString_int_ne_none j)
      | float y => exact absurd h.symm (reprFloat_ne_none htexts y)
  | bool b =>
      cases w with
      | str s | pair a b => exact absurd hplain' id
      | none => exact absurd h (reprBool_ne_none b)
      | bool c => rw [reprBool_inj h]
      | int j => exact absurd h.symm (reprBool_ne_int b j)
      | float y => exact absurd h (reprBool_ne_float htexts b y)
  | int i =>
      cases w with
      | str s | pair a b => exact absurd hplain' id
      | none => exact absurd h (toString_int_ne_none i)
      | bool c => exact absurd h (reprBool_ne_int c i)
      | int j => rw [toString_int_inj h]
      | float y => exact absurd h (reprFloat_ne_int htexts y i)
  | float x =>
      cases w with
      | str s | pair a b => exact absurd hplain' id
      | none => exact absurd h (reprFloat_ne_none htexts x)
      | bool c => exact absurd h.symm (reprBool_ne_float htexts c x)
      | int j => exact absurd h.symm (reprFloat_ne_int htexts x j)
      | float y => rw [hF.inj x y hv h]

/-- The text of a plain value begins with an ordinary symbol. -/
lemma text_opens_plain {v : Value F} (hv : v.IsPlain) :
    ∃ c l, v.text.toList = c :: l ∧ ¬ Special c := by
  have hplain := plain_text hF.toFloatTexts hv
  cases hl : v.text.toList with
  | nil =>
      refine absurd (String.toList_inj.mp (hl.trans String.toList_empty.symm)) ?_
      cases v with
      | str s | pair a b => exact absurd hv id
      | none => exact (by decide : "None" ≠ "")
      | bool b => exact (by cases b <;> decide : reprBool b ≠ "")
      | int i => exact toString_int_ne_empty i
      | float x =>
          obtain ⟨c, hc, -⟩ := hF.fraction x
          intro hempty
          rw [show PyRuntime.reprFloat x = "" from hempty] at hc
          exact absurd hc (by simp)
  | cons c l =>
      rw [hl] at hplain
      exact ⟨c, l, rfl, hplain c List.mem_cons_self⟩

omit hF in
/-- The text of a string or a pair begins with a special symbol. -/
lemma text_opens_special {v : Value F} (hv : ¬ v.IsPlain) :
    ∃ c l, v.text.toList = c :: l ∧ Special c ∧ ((∃ s, v = .str s) ∨ c = '(') := by
  cases v with
  | none | bool b | int i | float x => exact absurd trivial hv
  | str s =>
      refine ⟨_, _, reprStr_toList (PyRuntime.isPrintable F) s, ?_, Or.inl ⟨s, rfl⟩⟩
      obtain h | h := isQuote_quoteOf s
      · rw [h]; decide
      · rw [h]; decide
  | pair a b =>
      refine ⟨'(', (a.text ++ ", " ++ b.text ++ ")").toList, ?_, by decide, Or.inr rfl⟩
      simp [Value.text]

/-- A readable value is read back from its text, when a stop follows. -/
theorem value_append_inj {v w : Value F} (hv : v.Readable) {s t : List Char}
    (hs : Follows Special s) (ht : Follows Special t)
    (h : v.text.toList ++ s = w.text.toList ++ t) : v = w ∧ s = t := by
  by_cases hplain : v.IsPlain
  · by_cases hplain' : w.IsPlain
    · obtain ⟨htext, hst⟩ := append_inj_of_plain (plain_text hF.toFloatTexts hplain)
        (plain_text hF.toFloatTexts hplain') hs ht h
      exact ⟨text_inj_of_plain hF hv hplain hplain' (String.toList_inj.mp htext), hst⟩
    · obtain ⟨c, l, hc, hordinary⟩ := text_opens_plain hF hplain
      obtain ⟨d, m, hd, hspecial, -⟩ := text_opens_special hplain'
      rw [hc, hd] at h
      exact absurd ((List.cons_eq_cons.mp h).1 ▸ hspecial) hordinary
  · cases v with
    | none | bool b | int i | float x => exact absurd trivial hplain
    | pair a b => exact absurd hv id
    | str a =>
        by_cases hplain' : w.IsPlain
        · obtain ⟨c, l, hc, hspecial, -⟩ := text_opens_special hplain
          obtain ⟨d, m, hd, hordinary⟩ := text_opens_plain hF hplain'
          rw [hc, hd] at h
          exact absurd ((List.cons_eq_cons.mp h).1 ▸ hspecial) hordinary
        · obtain ⟨d, m, hd, -, ⟨b, rfl⟩ | rfl⟩ := text_opens_special hplain'
          · obtain ⟨rfl, hst⟩ := reprStr_prefixFree (PyRuntime.isPrintable F) a b s t h
            exact ⟨rfl, hst⟩
          · rw [hd, Value.text, reprStr_toList] at h
            obtain hquote | hquote := isQuote_quoteOf a
            all_goals
              rw [hquote] at h
              exact absurd (List.cons_eq_cons.mp h).1 (by decide)

end Values

section Expressions

/-- The class of an expression. -/
inductive ExpressionClass
  | column | literal | aliased | not | isNull | isNotNull
  | binary (op : BinaryOp)
  | aggregate (name : AggregateName)
  deriving DecidableEq

namespace ExpressionClass

/-- `type(expr).__name__`. -/
def className : ExpressionClass → String
  | column => "Column"
  | literal => "Literal"
  | aliased => "Alias"
  | not => "Not"
  | isNull => "IsNull"
  | isNotNull => "IsNotNull"
  | binary op => op.className
  | aggregate name => name.className

/-- All classes. -/
def all : List ExpressionClass :=
  [column, literal, aliased, not, isNull, isNotNull] ++
    [BinaryOp.greaterThan, .greaterEqual, .lessThan, .lessEqual, .equal, .notEqual, .and, .or,
      .add, .subtract, .multiply, .divide].map binary ++
    [AggregateName.count, .sum, .avg, .min, .max].map aggregate

lemma mem_all (c : ExpressionClass) : c ∈ all := by
  cases c with
  | binary op => cases op <;> decide
  | aggregate name => cases name <;> decide
  | column | literal | aliased | not | isNull | isNotNull => decide

lemma className_injective : Function.Injective className := by
  intro c d h
  exact List.inj_on_of_nodup_map (by decide) (mem_all c) (mem_all d) h

end ExpressionClass

namespace Expression

/-- The class of the object. -/
def classOf : Expression F → ExpressionClass
  | .column _ => .column
  | .literal _ => .literal
  | .aliased _ _ => .aliased
  | .binary op _ _ => .binary op
  | .not _ => .not
  | .isNull _ => .isNull
  | .isNotNull _ => .isNotNull
  | .countStar => .aggregate .count
  | .aggregate name _ => .aggregate name

/-- What stands between the parentheses. -/
def inside : Expression F → List Char
  | .column name => (reprStr (PyRuntime.isPrintable F) name).toList
  | .literal value => value.text.toList
  | .aliased child name =>
      child.text.toList ++ ',' :: ' ' :: (reprStr (PyRuntime.isPrintable F) name).toList
  | .binary _ left right => left.text.toList ++ ',' :: ' ' :: right.text.toList
  | .not child => child.text.toList
  | .isNull child => child.text.toList
  | .isNotNull child => child.text.toList
  | .countStar => ['*']
  | .aggregate _ child => child.text.toList

lemma text_toList (e : Expression F) :
    e.text.toList = e.classOf.className.toList ++ '(' :: (e.inside ++ [')']) := by
  cases e <;> simp [text, classOf, inside, ExpressionClass.className, AggregateName.className]

/-- All literals can be read back. -/
def Readable : Expression F → Prop
  | .column _ => True
  | .literal value => value.Readable
  | .aliased child _ => child.Readable
  | .binary _ left right => left.Readable ∧ right.Readable
  | .not child => child.Readable
  | .isNull child => child.Readable
  | .isNotNull child => child.Readable
  | .countStar => True
  | .aggregate _ child => child.Readable

lemma className_plain (c : ExpressionClass) : Plain (· = '(') c.className.toList := by
  have hall : ExpressionClass.all.all (fun c => c.className.toList.all (· != '(')) = true := by
    decide
  intro x hx
  have hc := List.all_eq_true.mp (List.all_eq_true.mp hall c c.mem_all) x hx
  simpa using hc

/-- Equal texts have equal classes and equal insides, up to what follows. -/
lemma text_append_split {e f : Expression F} {s t : List Char}
    (h : e.text.toList ++ s = f.text.toList ++ t) : e.classOf = f.classOf ∧
      e.inside ++ ')' :: s = f.inside ++ ')' :: t := by
  rw [text_toList, text_toList, List.append_assoc, List.append_assoc, List.cons_append,
    List.cons_append, List.append_assoc, List.append_assoc] at h
  obtain ⟨hclass, hrest⟩ := append_inj_of_plain (className_plain _) (className_plain _)
    (show Follows (· = '(') ('(' :: _) from rfl) (show Follows (· = '(') ('(' :: _) from rfl) h
  exact ⟨ExpressionClass.className_injective (String.toList_inj.mp hclass),
    (List.cons_eq_cons.mp hrest).2⟩

/-- No expression begins with a star. -/
lemma text_ne_star (e : Expression F) (s t : List Char) : e.text.toList ++ s ≠ '*' :: t := by
  have hall : ExpressionClass.all.all
      (fun c => c.className.toList.head? != some '*' && c.className.toList.head?.isSome) = true := by
    decide
  have hclass := List.all_eq_true.mp hall e.classOf e.classOf.mem_all
  intro h
  rw [text_toList, List.append_assoc] at h
  cases hname : e.classOf.className.toList with
  | nil => rw [hname] at hclass; cases hclass
  | cons c l =>
      rw [hname] at hclass h
      obtain rfl := (List.cons_eq_cons.mp h).1
      cases hclass

/-- An expression is read back from its text, whatever follows. -/
theorem text_append_inj (hF : FloatReads F) {e f : Expression F} (he : e.Readable)
    {s t : List Char} (h : e.text.toList ++ s = f.text.toList ++ t) : e = f ∧ s = t := by
  induction e generalizing f s t with
  | column name =>
      obtain ⟨hclass, hinside⟩ := text_append_split h
      cases f <;> cases hclass
      obtain ⟨rfl, hst⟩ := reprStr_prefixFree _ _ _ _ _ hinside
      exact ⟨rfl, (List.cons_eq_cons.mp hst).2⟩
  | literal value =>
      obtain ⟨hclass, hinside⟩ := text_append_split h
      cases f <;> cases hclass
      obtain ⟨rfl, hst⟩ := value_append_inj hF he
        (show Follows Special (')' :: s) from (by decide : Special ')'))
        (show Follows Special (')' :: t) from (by decide : Special ')')) hinside
      exact ⟨rfl, (List.cons_eq_cons.mp hst).2⟩
  | aliased child name ih =>
      obtain ⟨hclass, hinside⟩ := text_append_split h
      cases f <;> cases hclass
      rw [inside, inside, List.append_assoc, List.append_assoc] at hinside
      obtain ⟨rfl, hname⟩ := ih he hinside
      obtain ⟨rfl, hst⟩ := reprStr_prefixFree _ _ _ _ _
        (List.cons_eq_cons.mp (List.cons_eq_cons.mp hname).2).2
      exact ⟨rfl, (List.cons_eq_cons.mp hst).2⟩
  | binary op left right ihl ihr =>
      obtain ⟨hclass, hinside⟩ := text_append_split h
      cases f <;> cases hclass
      rw [inside, inside, List.append_assoc, List.append_assoc] at hinside
      obtain ⟨rfl, hright⟩ := ihl he.1 hinside
      obtain ⟨rfl, hst⟩ := ihr he.2 (List.cons_eq_cons.mp (List.cons_eq_cons.mp hright).2).2
      exact ⟨rfl, (List.cons_eq_cons.mp hst).2⟩
  | not child ih | isNull child ih | isNotNull child ih =>
      obtain ⟨hclass, hinside⟩ := text_append_split h
      cases f <;> cases hclass
      obtain ⟨rfl, hst⟩ := ih he hinside
      exact ⟨rfl, (List.cons_eq_cons.mp hst).2⟩
  | countStar =>
      obtain ⟨hclass, hinside⟩ := text_append_split h
      cases f <;> cases hclass
      · exact ⟨rfl, (List.cons_eq_cons.mp (List.cons_eq_cons.mp hinside).2).2⟩
      · exact absurd hinside.symm (text_ne_star _ _ _)
  | aggregate name child ih =>
      obtain ⟨hclass, hinside⟩ := text_append_split h
      cases f <;> cases hclass
      · exact absurd hinside (text_ne_star _ _ _)
      · obtain ⟨rfl, hst⟩ := ih he hinside
        exact ⟨rfl, (List.cons_eq_cons.mp hst).2⟩

/-- Expressions that print the same are the same. -/
theorem text_inj (hF : FloatReads F) {e f : Expression F} (he : e.Readable)
    (h : e.text = f.text) : e = f := by
  refine (text_append_inj hF he (s := []) (t := []) ?_).1
  rw [h]

end Expression

end Expressions

section Exact

lemma decimal_ne_fraction (i j : ℤ) (n : ℕ) :
    toString i ++ ".0" ≠ toString j ++ "/" ++ toString n := by
  intro h
  have hpoint : '.' ∈ (toString j ++ "/" ++ toString n).toList := by
    rw [← h]
    simp
  rw [String.toList_append, String.toList_append, List.mem_append, List.mem_append] at hpoint
  obtain (hj | hslash) | hn := hpoint
  · exact absurd (mem_toString_int hj) (by decide)
  · exact absurd hslash (by simp)
  · exact absurd (mem_toString_nat hn) (by decide)

lemma fraction_inj {i j : ℤ} {m n : ℕ}
    (h : toString i ++ "/" ++ toString m = toString j ++ "/" ++ toString n) : i = j ∧ m = n := by
  have hplain : ∀ i : ℤ, Plain (· = '/') (toString i).toList := by
    rintro i c hc rfl
    exact absurd (mem_toString_int hc) (by decide)
  have hlist := congrArg String.toList h
  rw [String.toList_append, String.toList_append, String.toList_append, String.toList_append,
    List.append_assoc, List.append_assoc] at hlist
  obtain ⟨hnum, hrest⟩ := append_inj_of_plain (hplain i) (hplain j)
    (show Follows (· = '/') ('/' :: (toString m).toList) from rfl)
    (show Follows (· = '/') ('/' :: (toString n).toList) from rfl) hlist
  refine ⟨toString_int_inj (String.toList_inj.mp hnum), ?_⟩
  exact toString_nat_inj (String.toList_inj.mp (List.cons_eq_cons.mp hrest).2)

/-- Exact floats are read back. -/
lemma floatReads_exact : FloatReads ℚ where
  toFloatTexts := floatTexts_exact
  inj x y _ h := by
    change (if x.den = 1 then toString x.num ++ ".0"
      else toString x.num ++ "/" ++ toString x.den) = (if y.den = 1 then toString y.num ++ ".0"
      else toString y.num ++ "/" ++ toString y.den) at h
    by_cases hx : x.den = 1
    · by_cases hy : y.den = 1
      · rw [if_pos hx, if_pos hy, String.append_left_inj] at h
        exact Rat.ext (toString_int_inj h) (hx.trans hy.symm)
      · rw [if_pos hx, if_neg hy] at h
        exact absurd h (decimal_ne_fraction _ _ _)
    · by_cases hy : y.den = 1
      · rw [if_neg hx, if_pos hy] at h
        exact absurd h.symm (decimal_ne_fraction _ _ _)
      · rw [if_neg hx, if_neg hy] at h
        obtain ⟨hnum, hden⟩ := fraction_inj h
        exact Rat.ext hnum hden

end Exact

end MiniSpark
