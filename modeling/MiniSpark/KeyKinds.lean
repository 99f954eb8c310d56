import MiniSpark.RowOperators

/-!
# Key columns of one type

A key column that holds only ints, only strings or only bools, and null, is
compared by identity: `==` meets no two of its values that differ. Rows with the
same key then hash alike.
-/
namespace MiniSpark

variable {F : Type} [PyRuntime F]

/-- The type of the values of a key column. -/
inductive KeyKind
  | int | str | bool
  deriving DecidableEq, Repr

omit [PyRuntime F] in
/-- Every kind admits null. -/
def KeyKind.Admits : KeyKind → Value F → Prop
  | _, .none => True
  | .int, .int _ => True
  | .str, .str _ => True
  | .bool, .bool _ => True
  | _, _ => False

theorem KeyKind.Admits.beq_iff {kind : KeyKind} {a b : Value F} (ha : kind.Admits a)
    (hb : kind.Admits b) : (a == b) = true ↔ a = b := by
  change a.pyEq b = true ↔ a = b
  cases kind <;> cases a <;> cases b <;> simp_all [Admits, Value.pyEq, Value.num?, Num.eq]
  · next x y => cases x <;> cases y <;> simp

omit [PyRuntime F] in
/-- Each of the columns is present in every row and holds values of one kind. -/
def HoldKinds (names : List String) (rows : List (Record F)) : Prop :=
  ∀ n ∈ names, ∃ kind : KeyKind, ∀ r ∈ rows, ∃ v, r.get? n = some v ∧ kind.Admits v

omit [PyRuntime F] in
/-- The values of some columns. -/
def keyOf (names : List String) (r : Record F) : List (Value F) :=
  names.map (fun n => (r.get? n).getD .none)

/-- The key of a row in the given columns has a text. -/
def KeyPrints (names : List String) (r : Record F) : Prop :=
  (keyOf names r).all Value.prints = true

instance (names : List String) (r : Record F) : Decidable (KeyPrints names r) :=
  inferInstanceAs (Decidable (_ = true))

lemma prints_of_mem_keys {names : List String} {rows : List (Record F)}
    (h : ∀ r ∈ rows, KeyPrints names r) {k : List (Value F)} (hk : k ∈ rows.map (keyOf names)) :
    k.all Value.prints = true := by
  obtain ⟨r, hr, rfl⟩ := List.mem_map.mp hk
  exact h r hr

lemma tupleKey_columns {names : List String} {r : Record F}
    (h : ∀ n ∈ names, ∃ v, r.get? n = some v) :
    tupleKey (names.map Expression.column) r = .ok (keyOf names r) := by
  rw [tupleKey, ExceptList.mapM_eq_ok, keyOf, List.forall₂_map_left_iff, List.forall₂_map_right_iff,
    List.forall₂_same]
  intro n hn
  obtain ⟨v, hv⟩ := h n hn
  simp [Expression.evaluate, Expression.lookupColumn, hv]

namespace HoldKinds

variable {names : List String} {rows rows' : List (Record F)}

omit [PyRuntime F] in
theorem mono (h : HoldKinds names rows) (hsub : rows' ⊆ rows) : HoldKinds names rows' := by
  intro n hn
  obtain ⟨kind, hkind⟩ := h n hn
  exact ⟨kind, fun r hr => hkind r (hsub hr)⟩

theorem tupleKey_ok (h : HoldKinds names rows) {r : Record F} (hr : r ∈ rows) :
    tupleKey (names.map Expression.column) r = .ok (keyOf names r) := by
  refine tupleKey_columns (fun n hn => ?_)
  obtain ⟨kind, hkind⟩ := h n hn
  obtain ⟨v, hv, -⟩ := hkind r hr
  exact ⟨v, hv⟩

/-- Two rows have equal keys exactly when their columns are equal one by one. -/
theorem keyOf_beq (h : HoldKinds names rows) {l r : Record F} (hl : l ∈ rows) (hr : r ∈ rows) :
    (keyOf names l == keyOf names r) = names.all (fun n => l.get? n == r.get? n) := by
  induction names with
  | nil => rfl
  | cons n names ih =>
      obtain ⟨kind, hkind⟩ := h n List.mem_cons_self
      obtain ⟨v, hv, -⟩ := hkind l hl
      obtain ⟨w, hw, -⟩ := hkind r hr
      have hrest := ih (fun m hm => h m (List.mem_cons_of_mem _ hm))
      simp only [keyOf, List.map_cons, List.cons_beq_cons, List.all_cons, hv, hw,
        Option.getD_some] at hrest ⊢
      rw [hrest]
      rfl

/-- On such keys `==` is identity. -/
theorem keyOf_beq_iff (h : HoldKinds names rows) {l r : Record F} (hl : l ∈ rows) (hr : r ∈ rows) :
    (keyOf names l == keyOf names r) = true ↔ keyOf names l = keyOf names r := by
  induction names with
  | nil => simp [keyOf]
  | cons n names ih =>
      obtain ⟨kind, hkind⟩ := h n List.mem_cons_self
      obtain ⟨v, hv, hkv⟩ := hkind l hl
      obtain ⟨w, hw, hkw⟩ := hkind r hr
      have hrest := ih (fun m hm => h m (List.mem_cons_of_mem _ hm))
      simp only [keyOf, List.map_cons, List.cons_beq_cons, hv, hw, Option.getD_some,
        Bool.and_eq_true, List.cons.injEq, hkv.beq_iff hkw] at hrest ⊢
      rw [hrest]

/-- The keys of the rows are compared by identity. -/
theorem lawfulOn_keys (h : HoldKinds names rows) :
    OrderedDict.LawfulOn (· ∈ rows.map (keyOf names)) := by
  intro a b ha hb
  obtain ⟨l, hl, rfl⟩ := List.mem_map.mp ha
  obtain ⟨r, hr, rfl⟩ := List.mem_map.mp hb
  exact h.keyOf_beq_iff hl hr

end HoldKinds

/-- Rows can be dealt by the hash of their keys: each column holds values of one kind, and every
key has a text. -/
structure HashesKeys (names : List String) (rows : List (Record F)) : Prop where
  kinds : HoldKinds names rows
  prints : ∀ r ∈ rows, KeyPrints names r

/-- A key beyond the digit limit does not print. -/
lemma not_keyPrints_longInt {name : String} {r : Record ℚ}
    (h : r.get? name = some (.int longInt)) : ¬ KeyPrints [name] r := by
  intro hprints
  have hlong : intPrints ℚ longInt = true := by
    simpa [KeyPrints, keyOf, h, Value.prints] using hprints
  rw [longInt_not_prints] at hlong
  cases hlong

end MiniSpark
