import Mathlib.Data.String.Basic
import MiniSpark.ExactNumbers
import MiniSpark.RowKeys
import MiniSpark.SortOperator

/-!
# The order of sorted rows

Two encodings of one order. A stable pass compares pairs of a null sentinel and a
value, reversed for a descending column; the composite key compares all columns at
once and wraps the values of a descending column. Where `<` orders the values of
every column, both decide the lexicographic order of the columns with nulls last.
-/
namespace MiniSpark

open StableSort

variable {F : Type} [PyRuntime F]

/-- `<` orders the values: on two of them it returns, and exactly one of `<`, `==` and `>`
holds. NaN is not among such values. -/
structure MutuallyComparable (P : Value F → Prop) : Prop where
  trichotomy : ∀ v w, P v → P w →
    (v.lt w = .ok true ∧ w.lt v = .ok false ∧ (v == w) = false) ∨
    (v.lt w = .ok false ∧ w.lt v = .ok false ∧ (v == w) = true) ∨
    (v.lt w = .ok false ∧ w.lt v = .ok true ∧ (v == w) = false)
  trans : ∀ u v w, P u → P v → P w → u.lt v = .ok true → v.lt w = .ok true → u.lt w = .ok true

/-- The order of one column: ascending or descending by `<`, nulls last in both. -/
def nullsLastLe (ascending : Bool) (v w : Value F) : Bool :=
  if w.isNone then true
  else if v.isNone then false
  else if ascending then notLt Value.lt v w
  else notLt Value.lt w v

/-- The order of rows by one sort expression. -/
def columnLe (k : Expression F × Bool) (a b : Record F) : Bool :=
  match k.1.evaluate a, k.1.evaluate b with
  | .ok v, .ok w => nullsLastLe k.2 v w
  | _, _ => true

/-- The lexicographic order of rows by sort expressions with directions. -/
def rowLe (keys : List (Expression F × Bool)) : Record F → Record F → Bool :=
  keys.foldr (fun k rest => lexLe (columnLe k) rest) (fun _ _ => true)

/-- A sort expression has a value on every row, and its non-null values are mutually
comparable. -/
structure SortableBy (e : Expression F) (rows : List (Record F)) : Prop where
  evaluates : ∀ r ∈ rows, ∃ v, e.evaluate r = .ok v
  comparable : MutuallyComparable
    (fun v => v.isNone = false ∧ ∃ r ∈ rows, e.evaluate r = .ok v)

/-- Every sort expression is sortable. -/
def Sortable (keys : List (Expression F × Bool)) (rows : List (Record F)) : Prop :=
  ∀ k ∈ keys, SortableBy k.1 rows

section Comparable

variable {P Q : Value F → Prop}

theorem MutuallyComparable.mono (h : MutuallyComparable P) (hQ : ∀ v, Q v → P v) :
    MutuallyComparable Q where
  trichotomy v w hv hw := h.trichotomy v w (hQ v hv) (hQ w hw)
  trans u v w hu hv hw := h.trans u v w (hQ u hu) (hQ v hv) (hQ w hw)

/-- Values on which `<` and `==` are those of a linear order. -/
theorem MutuallyComparable.of_linearOrder {K : Type} [LinearOrder K] (rank : Value F → Option K)
    (hlt : ∀ v w x y, rank v = some x → rank w = some y → v.lt w = .ok (decide (x < y)))
    (heq : ∀ v w x y, rank v = some x → rank w = some y → (v == w) = decide (x = y)) :
    MutuallyComparable (fun v => ∃ x, rank v = some x) where
  trichotomy := by
    rintro v w ⟨x, hx⟩ ⟨y, hy⟩
    rw [hlt v w x y hx hy, hlt w v y x hy hx, heq v w x y hx hy]
    rcases lt_trichotomy x y with hxy | rfl | hxy
    · simp [hxy, hxy.le, hxy.ne]
    · simp
    · simp [hxy, hxy.le, hxy.ne']
  trans := by
    rintro u v w ⟨x, hx⟩ ⟨y, hy⟩ ⟨z, hz⟩ huv hvw
    rw [hlt u v x y hx hy, Except.ok.injEq, decide_eq_true_eq] at huv
    rw [hlt v w y z hy hz, Except.ok.injEq, decide_eq_true_eq] at hvw
    rw [hlt u w x z hx hz, Except.ok.injEq, decide_eq_true_eq]
    exact huv.trans hvw

omit [PyRuntime F] in
/-- The text of a string. -/
def text? (v : Value F) : Option String := if let .str s := v then some s else none

/-- Texts are mutually comparable. -/
theorem MutuallyComparable.strings : MutuallyComparable (fun v : Value F => ∃ s, v = .str s) := by
  have hrank := MutuallyComparable.of_linearOrder (F := F) text? ?_ ?_
  · refine hrank.mono ?_
    rintro v ⟨s, rfl⟩
    exact ⟨s, rfl⟩
  · intro v w x y hx hy
    cases v <;> cases w <;> simp_all [Value.lt, text?]
  · intro v w x y hx hy
    cases v <;> cases w <;> simp_all [Value.pyEq, BEq.beq, text?]

/-- Numbers are mutually comparable in exact arithmetic. -/
theorem MutuallyComparable.numbers :
    MutuallyComparable (fun v : Value ℚ => ∃ x, v.rat? = some x) := by
  refine MutuallyComparable.of_linearOrder Value.rat? (fun v w x y hx hy => Value.lt_rat hx hy) ?_
  intro v w x y hx hy
  rw [Bool.eq_iff_iff, Value.beq_rat hx hy, decide_eq_true_eq]

theorem SortableBy.mono {e : Expression F} {rows rows' : List (Record F)} (h : SortableBy e rows)
    (hsub : ∀ r ∈ rows', r ∈ rows) : SortableBy e rows' where
  evaluates r hr := h.evaluates r (hsub r hr)
  comparable := h.comparable.mono (by
    rintro v ⟨hv, r, hr, he⟩
    exact ⟨hv, r, hsub r hr, he⟩)

/-- An expression with exact numbers or null on every row is sortable. -/
theorem SortableBy.of_numbers {e : Expression ℚ} {rows : List (Record ℚ)}
    (h : ∀ r ∈ rows, ∃ v q, e.evaluate r = .ok v ∧ Stands v q) : SortableBy e rows where
  evaluates r hr := by
    obtain ⟨v, -, hv, -⟩ := h r hr
    exact ⟨v, hv⟩
  comparable := MutuallyComparable.numbers.mono (by
    rintro v ⟨hn, r, hr, hv⟩
    obtain ⟨v', q, hv', hstands⟩ := h r hr
    rw [hv] at hv'
    cases hv'
    cases q with
    | none =>
        rw [show v = .none from hstands] at hn
        cases hn
    | some x => exact ⟨x, hstands⟩)

theorem Sortable.mono {keys : List (Expression F × Bool)} {rows rows' : List (Record F)}
    (h : Sortable keys rows) (hsub : ∀ r ∈ rows', r ∈ rows) : Sortable keys rows' :=
  fun k hk => (h k hk).mono hsub

variable {u v w : Value F}

theorem notLt_of_ok {b : Bool} (h : w.lt v = .ok b) : notLt Value.lt v w = !b := by
  rw [notLt, ExceptList.verdict_of_ok h]

theorem MutuallyComparable.notLt_total (h : MutuallyComparable P) (hv : P v) (hw : P w) :
    notLt Value.lt v w = true ∨ notLt Value.lt w v = true := by
  rcases h.trichotomy v w hv hw with ⟨hlt, hgt, -⟩ | ⟨hlt, hgt, -⟩ | ⟨hlt, hgt, -⟩
  · exact Or.inl (by rw [notLt_of_ok hgt]; rfl)
  · exact Or.inl (by rw [notLt_of_ok hgt]; rfl)
  · exact Or.inr (by rw [notLt_of_ok hlt]; rfl)

theorem MutuallyComparable.notLt_trans (h : MutuallyComparable P) (hu : P u) (hv : P v)
    (hw : P w) (huv : notLt Value.lt u v = true) (hvw : notLt Value.lt v w = true) :
    notLt Value.lt u w = true := by
  by_contra hcon
  -- the negation puts `w` before `u`
  have hwu : w.lt u = .ok true := by
    rcases h.trichotomy w u hw hu with ⟨hlt, -, -⟩ | ⟨hlt, -, -⟩ | ⟨hlt, -, -⟩
    · exact hlt
    · exact absurd (by rw [notLt_of_ok hlt]; rfl) hcon
    · exact absurd (by rw [notLt_of_ok hlt]; rfl) hcon
  rcases h.trichotomy u v hu hv with ⟨hlt, -, -⟩ | ⟨-, hgt, heq⟩ | ⟨-, hgt, -⟩
  · have hwv := h.trans w u v hw hu hv hwu hlt
    rw [notLt_of_ok hwv] at hvw
    cases hvw
  · rcases h.trichotomy v w hv hw with ⟨hlt, -, -⟩ | ⟨-, -, heq'⟩ | ⟨-, hgt', -⟩
    · have hvu := h.trans v w u hv hw hu hlt hwu
      rw [hgt] at hvu
      cases hvu
    · have huw := PartialEquivBEq.trans heq heq'
      rcases h.trichotomy u w hu hw with ⟨-, hgt', -⟩ | ⟨-, hgt', -⟩ | ⟨-, -, hne⟩
      · rw [hwu] at hgt'
        cases hgt'
      · rw [hwu] at hgt'
        cases hgt'
      · rw [huw] at hne
        cases hne
    · rw [notLt_of_ok hgt'] at hvw
      cases hvw
  · rw [notLt_of_ok hgt] at huv
    cases huv

/-- The order of a column is a total preorder. -/
theorem MutuallyComparable.totalPreorder (h : MutuallyComparable P) (ascending : Bool) :
    TotalPreorderOn (nullsLastLe ascending) (fun v => v.isNone = false → P v) where
  total v w hv hw := by
    unfold nullsLastLe
    cases hvn : v.isNone with
    | true => simp
    | false =>
        cases hwn : w.isNone with
        | true => simp
        | false =>
            have htotal := h.notLt_total (hv hvn) (hw hwn)
            cases ascending with
            | true => simpa using htotal
            | false => simpa using htotal.symm
  trans u v w hu hv hw huv hvw := by
    unfold nullsLastLe at *
    cases hwn : w.isNone with
    | true => simp
    | false =>
        cases hvn : v.isNone with
        | true => simp [hvn, hwn] at hvw
        | false =>
            cases hun : u.isNone with
            | true => simp [hun, hvn] at huv
            | false =>
                cases ascending with
                | true =>
                    simp only [hun, hvn, hwn, if_true, Bool.false_eq_true, if_false] at *
                    exact h.notLt_trans (hu trivial) (hv trivial) (hw trivial) huv hvw
                | false =>
                    simp only [hun, hvn, hwn, Bool.false_eq_true, if_false] at *
                    exact h.notLt_trans (hw trivial) (hv trivial) (hu trivial) hvw huv

end Comparable

section RowOrder

variable {rows : List (Record F)}

theorem SortableBy.totalPreorder {k : Expression F × Bool} (h : SortableBy k.1 rows) :
    TotalPreorderOn (columnLe k) (· ∈ rows) where
  total a b ha hb := by
    obtain ⟨v, hv⟩ := h.evaluates a ha
    obtain ⟨w, hw⟩ := h.evaluates b hb
    simp only [columnLe, hv, hw]
    exact (h.comparable.totalPreorder k.2).total v w (fun hn => ⟨hn, a, ha, hv⟩)
      (fun hn => ⟨hn, b, hb, hw⟩)
  trans a b c ha hb hc hab hbc := by
    obtain ⟨u, hu⟩ := h.evaluates a ha
    obtain ⟨v, hv⟩ := h.evaluates b hb
    obtain ⟨w, hw⟩ := h.evaluates c hc
    simp only [columnLe, hu, hv, hw] at hab hbc ⊢
    exact (h.comparable.totalPreorder k.2).trans u v w (fun hn => ⟨hn, a, ha, hu⟩)
      (fun hn => ⟨hn, b, hb, hv⟩) (fun hn => ⟨hn, c, hc, hw⟩) hab hbc

/-- The order of rows is a total preorder on sortable rows. -/
theorem Sortable.totalPreorder {keys : List (Expression F × Bool)} (h : Sortable keys rows) :
    TotalPreorderOn (rowLe keys) (· ∈ rows) := by
  induction keys with
  | nil => exact ⟨fun _ _ _ _ => Or.inl rfl, fun _ _ _ _ _ _ _ _ => rfl⟩
  | cons k keys ih =>
      have hrest : Sortable keys rows := fun k' hk' => h k' (List.mem_cons_of_mem _ hk')
      exact (h k List.mem_cons_self).totalPreorder.lex (ih hrest)

end RowOrder

section Encodings

variable {P : Value F → Prop} {v w : Value F}

/-- The key of a stable pass for a value. -/
def sentinelKey (ascending : Bool) (v : Value F) : Bool × Value F :=
  (if ascending then v.isNone else !v.isNone, if v.isNone then .int 0 else v)

theorem nullLastSortKey_of_ok {e : Expression F} {record : Record F} (h : e.evaluate record = .ok v)
    (ascending : Bool) : nullLastSortKey e ascending record = .ok (sentinelKey ascending v) := by
  unfold nullLastSortKey
  rw [h]
  rfl

/-- Comparing the keys of a pass: ascending they are in order, descending they are reversed. -/
theorem sentinelLt_eq (h : MutuallyComparable P) (hv : v.isNone = false → P v)
    (hw : w.isNone = false → P w) (ascending : Bool) :
    sentinelLt (sentinelKey ascending v) (sentinelKey ascending w)
      = .ok (if ascending then !nullsLastLe true w v else !nullsLastLe false v w) := by
  have hzero : ((.int 0 : Value F) == .int 0) = true := by
    show (0 == 0) = true
    rfl
  cases hvn : v.isNone with
  | true =>
      cases hwn : w.isNone with
      | true => cases ascending <;> simp [sentinelLt, sentinelKey, nullsLastLe, hvn, hwn, hzero]
      | false => cases ascending <;> simp [sentinelLt, sentinelKey, nullsLastLe, hvn, hwn]
  | false =>
      cases hwn : w.isNone with
      | true => cases ascending <;> simp [sentinelLt, sentinelKey, nullsLastLe, hvn, hwn]
      | false =>
          have hkeys : sentinelLt (sentinelKey ascending v) (sentinelKey ascending w)
              = if v == w then .ok false else v.lt w := by
            cases ascending <;> simp [sentinelLt, sentinelKey, hvn, hwn]
          have horder : (if ascending then !nullsLastLe true w v else !nullsLastLe false v w)
              = !notLt Value.lt w v := by
            cases ascending <;> simp [nullsLastLe, hvn, hwn]
          rw [hkeys, horder]
          rcases h.trichotomy v w (hv hvn) (hw hwn) with ⟨hlt, -, heq⟩ | ⟨hlt, -, heq⟩ | ⟨hlt, -, heq⟩
          · rw [heq, notLt_of_ok hlt, hlt]
            rfl
          · rw [heq, notLt_of_ok hlt]
            rfl
          · rw [heq, notLt_of_ok hlt, hlt]
            rfl

/-- The part of the composite key for a value. -/
def sortPart (ascending : Bool) (v : Value F) : SortPart F :=
  ⟨v.isNone, ascending, if v.isNone then .int 0 else v⟩

/-- Comparing composite keys: the first column that decides, in its direction. -/
theorem compositeLt_cons (h : MutuallyComparable P) (hv : v.isNone = false → P v)
    (hw : w.isNone = false → P w) (ascending : Bool) (as bs : List (SortPart F)) (i j : ℕ)
    {rest : Bool} (hrest : compositeLt (as, i) (bs, j) = .ok rest) :
    compositeLt (sortPart ascending v :: as, i) (sortPart ascending w :: bs, j)
      = .ok (!(nullsLastLe ascending w v && (!nullsLastLe ascending v w || !rest))) := by
  have hzero : ((.int 0 : Value F) == .int 0) = true := by
    show (0 == 0) = true
    rfl
  unfold compositeLt
  cases hvn : v.isNone with
  | true =>
      cases hwn : w.isNone with
      | true => simp [sortPart, nullsLastLe, hvn, hwn, hzero, hrest]
      | false => simp [sortPart, nullsLastLe, hvn, hwn]
  | false =>
      cases hwn : w.isNone with
      | true => simp [sortPart, nullsLastLe, hvn, hwn]
      | false =>
          rcases h.trichotomy v w (hv hvn) (hw hwn) with
            ⟨hlt, hgt, heq⟩ | ⟨hlt, hgt, heq⟩ | ⟨hlt, hgt, heq⟩
          · cases ascending <;>
              simp [sortPart, nullsLastLe, hvn, hwn, heq, hlt, hgt, notLt_of_ok hlt, notLt_of_ok hgt]
          · cases ascending <;>
              simp [sortPart, nullsLastLe, hvn, hwn, heq, hrest, notLt_of_ok hlt, notLt_of_ok hgt]
          · cases ascending <;>
              simp [sortPart, nullsLastLe, hvn, hwn, heq, hlt, hgt, notLt_of_ok hlt, notLt_of_ok hgt]

end Encodings

end MiniSpark
