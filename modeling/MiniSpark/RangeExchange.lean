import Mathlib.Tactic.Linarith
import MiniSpark.ExactFloats
import MiniSpark.Exchange
import MiniSpark.Planner
import MiniSpark.SortExecution

/-!
# The exchange of a sort

Planning a sort runs its child and cuts the range of the primary key into parts of equal
width, or settles for one target. In exact arithmetic the boundaries ascend, so bisection
counts the boundaries that are not above a key: rows in order go to targets in order. A
descending key is negated first, which turns its order round.
-/
namespace MiniSpark

variable {F : Type} [PyRuntime F]

/-- The rows of a relation are dealt to targets that ascend with the sort order. -/
def DealsInOrder (exchange : SortExchange F) (k : Expression F × Bool) (rows : List (Record F)) :
    Prop :=
  ∃ (target : Record F → Py ℕ) (t : Record F → ℕ),
    shuffleTarget exchange.numPartitions [exchange.partitionKey] exchange.boundaries = .ok target ∧
    (∀ r ∈ rows, target r = .ok (t r) ∧ t r < exchange.numPartitions) ∧
    ∀ a ∈ rows, ∀ b ∈ rows, columnLe k a b = true → t a ≤ t b

section Bisection

variable {toRat : F → ℚ}

/-- The values stand for numbers in ascending order. -/
structure Ascending (toRat : F → ℚ) (values : List (Value F)) (numbers : List ℚ) : Prop where
  stand : List.Forall₂ (fun v q => v.number? toRat = some q) values numbers
  sorted : numbers.Pairwise (· ≤ ·)

omit [PyRuntime F] in
theorem Ascending.getElem {values : List (Value F)} {numbers : List ℚ}
    (h : Ascending toRat values numbers) {i : ℕ} (hi : i < values.length) :
    ∃ v q, values[i]? = some v ∧ numbers[i]? = some q ∧ v.number? toRat = some q := by
  have hlen := h.stand.length_eq
  refine ⟨values[i], numbers[i], List.getElem?_eq_getElem hi, List.getElem?_eq_getElem _, ?_⟩
  exact (List.forall₂_iff_get.mp h.stand).2 i hi (by omega)

/-- The slice of a bisection: boundaries below it are not above the key, those from its end
on are. -/
theorem bisectRightLoop_separates (hexact : ExactFloats toRat) {values : List (Value F)}
    {numbers : List ℚ} (h : Ascending toRat values numbers) {v : Value F} {x : ℚ}
    (hv : v.number? toRat = some x) (fuel lo hi : ℕ) (hfuel : hi - lo ≤ fuel) (hle : lo ≤ hi)
    (hhi : hi ≤ values.length) (hbelow : ∀ j q, j < lo → numbers[j]? = some q → q ≤ x)
    (habove : ∀ j q, hi ≤ j → numbers[j]? = some q → x < q) :
    ∃ i, bisectRightLoop values v fuel lo hi = .ok i ∧ i ≤ values.length ∧
      (∀ j q, j < i → numbers[j]? = some q → q ≤ x) ∧
      ∀ j q, i ≤ j → numbers[j]? = some q → x < q := by
  induction fuel generalizing lo hi with
  | zero =>
      obtain rfl : lo = hi := by omega
      exact ⟨lo, rfl, hhi, hbelow, habove⟩
  | succ fuel ih =>
      by_cases hlt : lo < hi
      · have hmid : (lo + hi) / 2 < values.length := by omega
        obtain ⟨b, y, hb, hy, hnum⟩ := h.getElem hmid
        have hmono : ∀ (j j' : ℕ) (q q' : ℚ), j ≤ j' → numbers[j]? = some q → numbers[j']? = some q' → q ≤ q' := by
          intro j j' q q' hjj hq hq'
          obtain ⟨hjlt, rfl⟩ := List.getElem?_eq_some_iff.mp hq
          obtain ⟨hjlt', rfl⟩ := List.getElem?_eq_some_iff.mp hq'
          rcases Nat.lt_or_eq_of_le hjj with hjj | rfl
          · exact List.pairwise_iff_getElem.mp h.sorted j j' hjlt hjlt' hjj
          · exact le_rfl
        simp only [bisectRightLoop, if_pos hlt, hb, Value.lt_number hexact hv hnum,
          ExceptList.bind_ok]
        by_cases hxy : x < y
        · rw [if_pos (decide_eq_true hxy)]
          refine ih lo ((lo + hi) / 2) (by omega) (by omega) (by omega) hbelow (fun j q hj hq => ?_)
          exact hxy.trans_le (hmono _ j y q hj hy hq)
        · rw [if_neg (by simpa using hxy)]
          refine ih ((lo + hi) / 2 + 1) hi (by omega) (by omega) hhi (fun j q hj hq => ?_) habove
          exact (hmono j _ q y (by omega) hq hy).trans (not_lt.mp hxy)
      · obtain rfl : lo = hi := by omega
        refine ⟨lo, ?_, hhi, hbelow, habove⟩
        simp only [bisectRightLoop, if_neg hlt]

/-- Bisection counts the boundaries that are not above the key. -/
theorem bisectRight_eq (hexact : ExactFloats toRat) {values : List (Value F)} {numbers : List ℚ}
    (h : Ascending toRat values numbers) {v : Value F} {x : ℚ} (hv : v.number? toRat = some x) :
    bisectRight values v = .ok (numbers.countP (fun q => decide (q ≤ x))) := by
  obtain ⟨i, hi, hile, hbelow, habove⟩ := bisectRightLoop_separates hexact h hv
    values.length 0 values.length (by omega) (by omega) le_rfl
    (fun j q hj => absurd hj (Nat.not_lt_zero j)) (fun j q hj hq => by
      obtain ⟨hjlt, -⟩ := List.getElem?_eq_some_iff.mp hq
      rw [← h.stand.length_eq] at hjlt
      omega)
  have htake : (numbers.take i).countP (fun q => decide (q ≤ x)) = i := by
    rw [List.countP_eq_length.mpr, List.length_take, ← h.stand.length_eq, min_eq_left hile]
    intro q hq
    obtain ⟨j, hj, rfl⟩ := List.mem_iff_getElem.mp hq
    rw [List.length_take] at hj
    rw [List.getElem_take]
    exact decide_eq_true (hbelow j _ (by omega) (List.getElem?_eq_getElem (by omega)))
  have hdrop : (numbers.drop i).countP (fun q => decide (q ≤ x)) = 0 := by
    rw [List.countP_eq_zero]
    intro q hq
    obtain ⟨j, hj, rfl⟩ := List.mem_iff_getElem.mp hq
    rw [List.length_drop] at hj
    rw [List.getElem_drop, decide_eq_true_eq, not_le]
    exact habove (i + j) _ (Nat.le_add_right i j) (List.getElem?_eq_getElem (by omega))
  rw [bisectRight, hi, ← List.take_append_drop i numbers, List.countP_append, htake, hdrop]
  rfl

end Bisection

section Boundaries

variable {toRat : F → ℚ}

/-- The boundaries between two numbers ascend. -/
theorem equalWidthBoundaries_ascending (hexact : ExactFloats toRat) {lo hi : Value F} {l u : ℚ}
    (hlo : lo.number? toRat = some l) (hhi : hi.number? toRat = some u) (hle : l ≤ u) {n : ℕ}
    (hn : 1 ≤ n) : ∃ bs numbers, equalWidthBoundaries lo hi n = .ok bs ∧ bs.length = n - 1 ∧
      Ascending toRat bs numbers := by
  unfold equalWidthBoundaries
  by_cases heq : (lo == hi) = true
  · rw [if_pos heq]
    refine ⟨_, List.replicate (n - 1) u, rfl, List.length_replicate, ?_, ?_⟩
    · exact List.forall₂_iff_get.mpr ⟨by simp, fun i h₁ h₂ => by simpa using hhi⟩
    · exact List.pairwise_replicate.mpr (Or.inr le_rfl)
  · rw [if_neg heq]
    obtain ⟨width, hwidth, hw⟩ := Value.sub_number hexact hhi hlo
    have hnumber : (Value.int (n : ℤ) : Value F).number? toRat = some ((n : ℤ) : ℚ) := rfl
    have hnz : ((n : ℤ) : ℚ) ≠ 0 := by
      have : (n : ℤ) ≠ 0 := by omega
      exact_mod_cast this
    obtain ⟨step, hstep, hs⟩ := Value.truediv_number hexact hw hnumber hnz
    have hstepnum : (Value.float step).number? toRat = some ((u - l) / ((n : ℤ) : ℚ)) :=
      congrArg some hs
    have hboundary : ∀ i ∈ List.range' 1 (n - 1), ∃ b, (do
        let offset ← (Value.float step).mul (.int (i : ℕ))
        lo.add offset) = Except.ok b ∧
        b.number? toRat = some (l + (u - l) / ((n : ℤ) : ℚ) * ((i : ℤ) : ℚ)) := by
      intro i _
      obtain ⟨offset, hoffset, ho⟩ := Value.mul_number hexact hstepnum
        (show (Value.int (i : ℤ) : Value F).number? toRat = some ((i : ℤ) : ℚ) from rfl)
      obtain ⟨b, hb, hbnum⟩ := Value.add_number hexact hlo ho
      exact ⟨b, by rw [hoffset, ExceptList.bind_ok, hb], hbnum⟩
    obtain ⟨bs, hbs, hall⟩ := ExceptList.mapM_ok_of_exists hboundary
    refine ⟨bs, (List.range' 1 (n - 1)).map (fun i : ℕ =>
      l + (u - l) / ((n : ℤ) : ℚ) * ((i : ℤ) : ℚ)), ?_, ?_, ?_, ?_⟩
    · rw [hwidth, ExceptList.bind_ok, hstep, ExceptList.bind_ok, hbs]
    · rw [← hall.length_eq, List.length_range']
    · rw [List.forall₂_map_right_iff]
      exact hall.flip
    · rw [List.pairwise_map]
      have hlt : (List.range' 1 (n - 1)).Pairwise (· < ·) := List.pairwise_lt_range'
      refine hlt.imp (fun {i j} hij => ?_)
      have hpos : (0 : ℚ) ≤ (u - l) / ((n : ℤ) : ℚ) := by
        refine div_nonneg (sub_nonneg.mpr hle) ?_
        exact_mod_cast Nat.zero_le n
      have hcast : ((i : ℤ) : ℚ) ≤ ((j : ℤ) : ℚ) := by
        exact_mod_cast hij.le
      linarith [mul_le_mul_of_nonneg_left hcast hpos]

/-- Two numbers in order. -/
theorem sortTwo_ok (hexact : ExactFloats toRat) {a b : Value F} {x y : ℚ}
    (ha : a.number? toRat = some x) (hb : b.number? toRat = some y) :
    ∃ lo hi l u, sortTwo a b = .ok (lo, hi) ∧ lo.number? toRat = some l ∧
      hi.number? toRat = some u ∧ l ≤ u := by
  unfold sortTwo
  rw [Value.lt_number hexact hb ha, ExceptList.bind_ok]
  by_cases hyx : y < x
  · exact ⟨b, a, y, x, by rw [decide_eq_true hyx]; rfl, hb, ha, hyx.le⟩
  · exact ⟨a, b, x, y, by rw [decide_eq_false hyx]; rfl, ha, hb, not_lt.mp hyx⟩

/-- A value is null or a number. -/
def NullOrNumber (toRat : F → ℚ) (v : Value F) : Prop :=
  v.isNone = true ∨ ∃ x, v.number? toRat = some x

theorem ColumnRange.extend_ok (hexact : ExactFloats toRat) {range : ColumnRange F} {v : Value F}
    (hmin : NullOrNumber toRat range.minValue) (hmax : NullOrNumber toRat range.maxValue)
    (hv : NullOrNumber toRat v) :
    ∃ range', range.extend v = .ok range' ∧ NullOrNumber toRat range'.minValue ∧
      NullOrNumber toRat range'.maxValue := by
  unfold ColumnRange.extend
  by_cases hn : v.isNone = true
  · rw [if_pos hn]
    exact ⟨range, rfl, hmin, hmax⟩
  · rw [if_neg hn]
    obtain ⟨x, hx⟩ := hv.resolve_left hn
    have hrun : ∃ lower upper : Bool, (do
        let lower ← if range.minValue.isNone then Except.ok true else v.lt range.minValue
        let upper ← if range.maxValue.isNone then Except.ok true else range.maxValue.lt v
        pure (⟨if lower then v else range.minValue, if upper then v else range.maxValue⟩ :
          ColumnRange F)) = (.ok ⟨if lower then v else range.minValue,
            if upper then v else range.maxValue⟩ : Py (ColumnRange F)) := by
      rcases hmin with hnull | ⟨y, hy⟩
      · rcases hmax with hnull' | ⟨z, hz⟩
        · exact ⟨true, true, by simp only [hnull, hnull', if_true]; rfl⟩
        · refine ⟨true, decide (z < x), ?_⟩
          simp only [hnull, Value.isNone_of_number? hz, Value.lt_number hexact hz hx]
          rfl
      · rcases hmax with hnull' | ⟨z, hz⟩
        · refine ⟨decide (x < y), true, ?_⟩
          simp only [hnull', Value.isNone_of_number? hy, Value.lt_number hexact hx hy]
          rfl
        · refine ⟨decide (x < y), decide (z < x), ?_⟩
          simp only [Value.isNone_of_number? hy, Value.isNone_of_number? hz,
            Value.lt_number hexact hx hy, Value.lt_number hexact hz hx]
          rfl
    obtain ⟨lower, upper, hrun⟩ := hrun
    refine ⟨_, hrun, ?_, ?_⟩
    · cases lower with
      | true => exact hv
      | false => exact hmin
    · cases upper with
      | true => exact hv
      | false => exact hmax

omit [PyRuntime F] in
/-- The two comparisons of a value with the extremes. -/
theorem extremes_eq_ok {lower upper : Py Bool} {f : Bool → Bool → ColumnRange F}
    {range : ColumnRange F} {c d : Bool} (h : (do
      let l ← if c then .ok true else lower
      let u ← if d then .ok true else upper
      pure (f l u)) = Except.ok range) :
    ∃ l, (if c then .ok true else lower) = Except.ok l ∧
      ∃ u, (if d then .ok true else upper) = Except.ok u ∧ range = f l u := by
  have hlast : ∀ l, (do
      let u ← if d then .ok true else upper
      pure (f l u)) = Except.ok range →
      ∃ u, (if d then .ok true else upper) = Except.ok u ∧ range = f l u := by
    intro l hl
    cases d with
    | true => exact ⟨true, rfl, (Except.ok.inj hl).symm⟩
    | false =>
        obtain ⟨u, hu, hl⟩ := ExceptList.bind_eq_ok.mp hl
        exact ⟨u, hu, (Except.ok.inj hl).symm⟩
  cases c with
  | true => exact ⟨true, rfl, hlast true h⟩
  | false =>
      obtain ⟨l, hl, h⟩ := ExceptList.bind_eq_ok.mp h
      exact ⟨l, hl, hlast l h⟩

/-- What one value does to the extremes: they stay among the values seen, and both are
known once a value is. -/
theorem ColumnRange.extend_spec {P : Value F → Prop} {range range' : ColumnRange F} {v : Value F}
    (h : range.extend v = .ok range') (hmin : P range.minValue) (hmax : P range.maxValue)
    (hv : P v) :
    P range'.minValue ∧ P range'.maxValue ∧
      ((v.isNone = false ∨ range.minValue.isNone = false ∧ range.maxValue.isNone = false) →
        range'.minValue.isNone = false ∧ range'.maxValue.isNone = false) := by
  unfold ColumnRange.extend at h
  by_cases hn : v.isNone = true
  · rw [if_pos hn] at h
    cases h
    exact ⟨hmin, hmax, fun hseen => hseen.resolve_left (by simp [hn])⟩
  · rw [if_neg hn] at h
    obtain ⟨lower, hlower, upper, hupper, rfl⟩ := extremes_eq_ok h
    have hn : v.isNone = false := Bool.not_eq_true _ ▸ hn
    refine ⟨?_, ?_, fun _ => ⟨?_, ?_⟩⟩
    · cases lower with
      | true => exact hv
      | false => exact hmin
    · cases upper with
      | true => exact hv
      | false => exact hmax
    · cases lower with
      | true => exact hn
      | false =>
          -- the least value so far stays only where there is one
          by_cases hnone : range.minValue.isNone = true
          · rw [if_pos hnone] at hlower
            cases hlower
          · simpa using hnone
    · cases upper with
      | true => exact hn
      | false =>
          by_cases hnone : range.maxValue.isNone = true
          · rw [if_pos hnone] at hupper
            cases hupper
          · simpa using hnone

/-- The extremes of a column come from its values, and exist as soon as one is not null. -/
theorem columnRange_spec {P : Value F → Prop} {dataset : Dataset F} {rows : List (Record F)}
    {name : String} {range : ColumnRange F} (hrows : dataset.iterRecords = .ok rows)
    (h : columnRange dataset name = .ok range) (hnone : P .none)
    (hP : ∀ r ∈ rows, P ((r.get? name).getD .none))
    (hsome : ∃ r ∈ rows, ((r.get? name).getD .none).isNone = false) :
    P range.minValue ∧ P range.maxValue ∧ range.minValue.isNone = false ∧
      range.maxValue.isNone = false := by
  have hfold : ∀ start : ColumnRange F, P start.minValue → P start.maxValue →
      rows.foldlM (fun range record => range.extend ((record.get? name).getD .none)) start =
        .ok range →
      P range.minValue ∧ P range.maxValue ∧
        (((∃ r ∈ rows, ((r.get? name).getD .none).isNone = false) ∨
          start.minValue.isNone = false ∧ start.maxValue.isNone = false) →
          range.minValue.isNone = false ∧ range.maxValue.isNone = false) := by
    clear hrows hsome h
    induction rows with
    | nil =>
        intro start hmin hmax hrun
        cases hrun
        exact ⟨hmin, hmax, fun hseen => hseen.resolve_left (by simp)⟩
    | cons r rows ih =>
        intro start hmin hmax hrun
        rw [List.foldlM_cons] at hrun
        obtain ⟨next, hnext, hrun⟩ := ExceptList.bind_eq_ok.mp hrun
        obtain ⟨hr, hrest⟩ := List.forall_mem_cons.mp hP
        obtain ⟨hmin', hmax', hknown⟩ := ColumnRange.extend_spec hnext hmin hmax hr
        obtain ⟨hfmin, hfmax, hfknown⟩ := ih hrest next hmin' hmax' hrun
        refine ⟨hfmin, hfmax, fun hseen => hfknown ?_⟩
        rcases hseen with ⟨s, hs, hsome⟩ | hstart
        · rcases List.mem_cons.mp hs with rfl | hs
          · exact Or.inr (hknown (Or.inl hsome))
          · exact Or.inl ⟨s, hs, hsome⟩
        · exact Or.inr (hknown (Or.inr hstart))
  unfold columnRange at h
  rw [hrows] at h
  obtain ⟨hmin, hmax, hknown⟩ := hfold ⟨.none, .none⟩ hnone hnone h
  exact ⟨hmin, hmax, hknown (Or.inl hsome)⟩

/-- The statistics of a column of numbers. -/
theorem columnRange_ok (hexact : ExactFloats toRat) {dataset : Dataset F} {name : String}
    {rows : List (Record F)} (hrows : dataset.iterRecords = .ok rows)
    (h : ∀ r ∈ rows, NullOrNumber toRat ((r.get? name).getD .none)) :
    ∃ range, columnRange dataset name = .ok range ∧ NullOrNumber toRat range.minValue ∧
      NullOrNumber toRat range.maxValue := by
  have hfold : ∀ range : ColumnRange F, NullOrNumber toRat range.minValue →
      NullOrNumber toRat range.maxValue → ∃ range', rows.foldlM (fun range record =>
        range.extend ((record.get? name).getD .none)) range = .ok range' ∧
        NullOrNumber toRat range'.minValue ∧ NullOrNumber toRat range'.maxValue := by
    clear hrows
    induction rows with
    | nil => exact fun range hmin hmax => ⟨range, rfl, hmin, hmax⟩
    | cons r rows ih =>
        intro range hmin hmax
        obtain ⟨hr, hrest⟩ := List.forall_mem_cons.mp h
        obtain ⟨range', hrange, hmin', hmax'⟩ := ColumnRange.extend_ok hexact hmin hmax hr
        obtain ⟨range'', hrun, hfinal⟩ := ih hrest range' hmin' hmax'
        exact ⟨range'', by rw [List.foldlM_cons, hrange, ExceptList.bind_ok, hrun], hfinal⟩
  unfold columnRange
  rw [hrows]
  exact hfold ⟨.none, .none⟩ (Or.inl rfl) (Or.inl rfl)

end Boundaries

section Oracle

variable [PyHost F]

omit [PyRuntime F] [PyHost F] in
theorem Dataset.partition_mapPartitions (d : Dataset F) (schema : Schema)
    (f : Partition F → Partition F)
    (hf : ∀ p : Partition F, p.Recomputable → (f p).Recomputable) (pid : ℕ) :
    (d.mapPartitions schema f hf).partition pid = f <$> d.partition pid := by
  unfold Dataset.partition Dataset.mapPartitions
  rw [List.getElem?_map]
  cases d.partitions[pid]? with
  | none => rfl
  | some p => rfl

/-- The whole-dataset oracle has the partitions the plan stands for. -/
theorem execute_denotes {plan : PhysicalPlan F} (h : isOracleExecutable plan = true) :
    ∃ d, execute plan = .ok d ∧ denote plan = .ok ⟨d.numPartitions, d.partition⟩ := by
  induction plan with
  | scanExec dataset sourceName => exact ⟨dataset, rfl, rfl⟩
  | filterExec child condition ih =>
      obtain ⟨d, hd, hden⟩ := ih h
      refine ⟨_, by rw [execute, hd]; rfl, ?_⟩
      rw [denote, hden, ExceptList.bind_ok]
      refine congrArg Except.ok (congrArg₂ PlanMeaning.mk ?_ (funext fun pid => ?_))
      · simp [Dataset.numPartitions, Dataset.mapPartitions]
      · exact (Dataset.partition_mapPartitions d _ _ _ pid).symm
  | projectExec child columns schema ih =>
      obtain ⟨d, hd, hden⟩ := ih h
      refine ⟨_, by rw [execute, hd]; rfl, ?_⟩
      rw [denote, hden, ExceptList.bind_ok]
      refine congrArg Except.ok (congrArg₂ PlanMeaning.mk ?_ (funext fun pid => ?_))
      · simp [Dataset.numPartitions, Dataset.mapPartitions]
      · exact (Dataset.partition_mapPartitions d _ _ _ pid).symm
  | hashAggregateExec child spec => cases h
  | exchangeExec child n exprs bc rb => cases h
  | shuffleWriteExec child n exprs rb => cases h
  | shuffleReadExec stageId schema bc => cases h
  | hashJoinExec left right lk rk on schema => cases h
  | sortExec child spec => cases h

/-- The rows the planner looks at are those the plan stands for. -/
theorem execute_iterRecords {plan : PhysicalPlan F} {parts : List (List (Record F))}
    (h : isOracleExecutable plan = true) (hd : denotedRows plan = .ok parts) :
    ∃ d, execute plan = .ok d ∧ d.iterRecords = .ok parts.flatten := by
  obtain ⟨d, hexec, hden⟩ := execute_denotes h
  refine ⟨d, hexec, ?_⟩
  rw [denotedRows, hden, ExceptList.bind_ok, ExceptList.mapM_eq_ok] at hd
  have hparts : d.partitions.mapM Partition.toList = .ok parts := by
    rw [ExceptList.mapM_eq_ok, List.forall₂_iff_get]
    obtain ⟨hlen, hget⟩ := List.forall₂_iff_get.mp hd
    rw [List.length_range] at hlen
    refine ⟨hlen, fun i h₁ h₂ => ?_⟩
    obtain ⟨part, hpart, hlist⟩ := ExceptList.bind_eq_ok.mp
      (hget i (by rw [List.length_range]; exact h₁) h₂)
    have hget' : d.partition i = .ok d.partitions[i] := by
      unfold Dataset.partition
      rw [List.getElem?_eq_getElem h₁]
    rw [List.get_eq_getElem, List.getElem_range] at hpart
    have hsame : d.partition i = .ok part := hpart
    rw [hget'] at hsame
    cases hsame
    exact hlist
  rw [Dataset.iterRecords, hparts]
  rfl

end Oracle

section Boundaries

variable {toRat : F → ℚ} {name : String} {rows : List (Record F)}

/-- One target is always in order. -/
theorem dealsInOrder_single {ascending : Bool}
    (h : ∀ r ∈ rows, ∃ v, r.get? name = some v) (hprints : ∀ r ∈ rows, KeyPrints [name] r) :
    DealsInOrder ⟨none, 1, .column name⟩ (.column name, ascending) rows := by
  have hkeys : ∀ r ∈ rows, tupleKey ([name].map .column) r = .ok (keyOf [name] r) := by
    intro r hr
    refine tupleKey_columns (fun n hn => ?_)
    rw [List.mem_singleton.mp hn]
    exact h r hr
  obtain ⟨target, htarget, ht⟩ := hashExchange_targets le_rfl hkeys hprints
  have hzero : ∀ r : Record F, hashTarget [name] ⟨1, le_rfl⟩ r = 0 := by
    intro r
    have hlt := HashPartitioner.textTarget_lt ⟨1, le_rfl⟩ (keyOf [name] r)
    exact Nat.lt_one_iff.mp hlt
  refine ⟨target, hashTarget [name] ⟨1, le_rfl⟩, htarget, fun r hr => ⟨ht r hr, ?_⟩, ?_⟩
  · rw [hzero]
    exact Nat.one_pos
  · intro a _ b _ _
    rw [hzero, hzero]

/-- The key of the exchange: the value of the column, negated for a descending sort. -/
theorem signedKey_evaluate (hexact : ExactFloats toRat) {r : Record F} {v : Value F} {x : ℚ}
    (hr : r.get? name = some v) (hv : v.number? toRat = some x) (ascending : Bool) :
    ∃ w, (if ascending then Expression.column name
      else .binary .multiply (.column name) (.literal (.int (-1)))).evaluate r = .ok w ∧
      w.number? toRat = some (if ascending then x else -x) := by
  have hcolumn : (Expression.column name).evaluate r = .ok v := by
    rw [Expression.evaluate, Expression.lookupColumn, hr]
  cases ascending with
  | true => exact ⟨v, hcolumn, hv⟩
  | false =>
      obtain ⟨w, hw, hnum⟩ := Value.mul_number hexact hv
        (show (Value.int (-1) : Value F).number? toRat = some ((-1 : ℤ) : ℚ) from rfl)
      refine ⟨w, ?_, ?_⟩
      · show (Expression.evaluate (.binary .multiply (.column name) (.literal (.int (-1)))) r) = _
        rw [Expression.evaluate, hcolumn]
        exact hw
      · rw [hnum]
        simp

/-- Ascending boundaries deal rows with numbers for keys in order. -/
theorem dealsInOrder_range (hexact : ExactFloats toRat) {bs : List (Value F)} {numbers : List ℚ}
    {n : ℕ} {ascending : Bool} (hn : 1 ≤ n) (hlen : bs.length = n - 1)
    (hbs : Ascending toRat bs numbers)
    (h : ∀ r ∈ rows, ∃ v x, r.get? name = some v ∧ v.number? toRat = some x) :
    DealsInOrder ⟨some bs, n, if ascending then .column name
      else .binary .multiply (.column name) (.literal (.int (-1)))⟩ (.column name, ascending)
      rows := by
  have hmake : RangePartitioner.make n bs = .ok ⟨n, hn, bs, hlen⟩ := by
    rw [RangePartitioner.make, dif_pos hn, dif_pos hlen]
  -- the number a row is dealt by
  have hnumber : ∃ key : Record F → ℚ, ∀ r ∈ rows, ∃ v, r.get? name = some v ∧
      v.number? toRat = some (key r) := by
    refine ⟨fun r => (((r.get? name).getD .none).number? toRat).getD 0, fun r hr => ?_⟩
    obtain ⟨v, x, hv, hx⟩ := h r hr
    exact ⟨v, hv, by simp [hv, hx]⟩
  obtain ⟨key, hkey⟩ := hnumber
  refine ⟨_, fun r => numbers.countP (fun q => decide (q ≤ if ascending then key r else -key r)),
    by rw [shuffleTarget, singleExpr, ExceptList.bind_ok, hmake]; rfl, fun r hr => ?_, ?_⟩
  · obtain ⟨v, hv, hx⟩ := hkey r hr
    obtain ⟨w, hw, hwnum⟩ := signedKey_evaluate hexact hv hx ascending
    have htarget := bisectRight_eq hexact hbs hwnum
    refine ⟨?_, ?_⟩
    · rw [hw]
      exact htarget
    · exact RangePartitioner.partitionFor_lt ⟨n, hn, bs, hlen⟩ htarget
  · intro a ha b hb hab
    obtain ⟨v, hv, hx⟩ := hkey a ha
    obtain ⟨w, hw, hy⟩ := hkey b hb
    have hle : (if ascending then key a else -key a) ≤ (if ascending then key b else -key b) := by
      simp only [columnLe, Expression.evaluate, Expression.lookupColumn, hv, hw, nullsLastLe,
        Value.isNone_of_number? hx, Value.isNone_of_number? hy] at hab
      cases ascending with
      | true =>
          rw [if_neg (by simp), if_neg (by simp), if_pos rfl,
            notLt_of_ok (Value.lt_number hexact hy hx)] at hab
          simpa using hab
      | false =>
          rw [if_neg (by simp), if_neg (by simp), if_neg (by simp),
            notLt_of_ok (Value.lt_number hexact hx hy)] at hab
          simpa using hab
    refine List.countP_mono_left (fun q _ hq => ?_)
    exact decide_eq_true ((of_decide_eq_true hq).trans hle)

variable [PyHost F]

/-- The planner falls back on one target for all rows: there is one, the column is not numeric, or
the child is not its own oracle. -/
def FallsBack (child : PhysicalPlan F) (name : String) (schema : Schema) (shufflePartitions : ℕ) :
    Prop :=
  shufflePartitions ≤ 1 ∨ ¬ ((schema.getField? name).map Field.dataType = some .int ∨
    (schema.getField? name).map Field.dataType = some .float) ∨ isOracleExecutable child = false

instance (child : PhysicalPlan F) (name : String) (schema : Schema) (n : ℕ) :
    Decidable (FallsBack child name schema n) := inferInstanceAs (Decidable (_ ∨ _))

/-- The exchange the planner chooses deals the rows of the child in order. -/
theorem sortRangeBoundaries_deals {child : PhysicalPlan F} {parts : List (List (Record F))}
    {schema : Schema} (ascending : Bool) (shufflePartitions : ℕ)
    (hd : denotedRows child = .ok parts)
    (hkeys : ∀ r ∈ parts.flatten, ∃ v, r.get? name = some v)
    (hnum : ∀ field, schema.getField? name = some field →
      field.dataType = .int ∨ field.dataType = .float →
      ∃ toRat : F → ℚ, ExactFloats toRat ∧
        ∀ r ∈ parts.flatten, ∀ v, r.get? name = some v → ∃ x, v.number? toRat = some x)
    (hprints : FallsBack child name schema shufflePartitions →
      ∀ r ∈ parts.flatten, KeyPrints [name] r) :
    ∃ exchange, sortRangeBoundaries child name ascending schema shufflePartitions = .ok exchange ∧
      DealsInOrder exchange (.column name, ascending) parts.flatten := by
  unfold sortRangeBoundaries
  by_cases hfallback : shufflePartitions ≤ 1 ∨
      ¬ ((schema.getField? name).map Field.dataType = some .int ∨
        (schema.getField? name).map Field.dataType = some .float) ∨
      isOracleExecutable child = false
  · rw [if_pos hfallback]
    exact ⟨_, rfl, dealsInOrder_single hkeys (hprints hfallback)⟩
  · rw [if_neg hfallback]
    obtain ⟨hn, hrest⟩ := not_or.mp hfallback
    obtain ⟨htype, horacle⟩ := not_or.mp hrest
    have htype := not_not.mp htype
    have horacle := Bool.not_eq_false _ ▸ horacle
    obtain ⟨field, hfield, hnumeric⟩ : ∃ field, schema.getField? name = some field ∧
        (field.dataType = .int ∨ field.dataType = .float) := by
      rcases htype with htype | htype
      · obtain ⟨field, hfield, ht⟩ := Option.map_eq_some_iff.mp htype
        exact ⟨field, hfield, Or.inl ht⟩
      · obtain ⟨field, hfield, ht⟩ := Option.map_eq_some_iff.mp htype
        exact ⟨field, hfield, Or.inr ht⟩
    obtain ⟨toRat, hexact, hvalues⟩ := hnum field hfield hnumeric
    obtain ⟨d, hexec, hrecords⟩ := execute_iterRecords horacle hd
    have hcolumn : ∀ r ∈ parts.flatten, NullOrNumber toRat ((r.get? name).getD .none) := by
      intro r hr
      obtain ⟨v, hv⟩ := hkeys r hr
      rw [hv]
      exact Or.inr (hvalues r hr v hv)
    obtain ⟨range, hrange, hmin, hmax⟩ := columnRange_ok hexact hrecords hcolumn
    rw [hexec, ExceptList.bind_ok, hrange, ExceptList.bind_ok]
    by_cases hnone : range.minValue.isNone = true ∨ range.maxValue.isNone = true
    · -- without a value there is no row
      have hempty : ∀ r ∈ parts.flatten, KeyPrints [name] r := by
        intro r hr
        obtain ⟨v, hv⟩ := hkeys r hr
        obtain ⟨x, hx⟩ := hvalues r hr v hv
        have hsome := Value.isNone_of_number? hx
        obtain ⟨-, -, hminSome, hmaxSome⟩ := columnRange_spec (P := fun _ => True) hrecords hrange
          trivial (fun _ _ => trivial) ⟨r, hr, by rw [hv]; exact hsome⟩
        simp [hminSome, hmaxSome] at hnone
      rw [if_pos hnone]
      exact ⟨_, rfl, dealsInOrder_single hkeys hempty⟩
    · rw [if_neg hnone]
      obtain ⟨hminNone, hmaxNone⟩ := not_or.mp hnone
      obtain ⟨lo, hlo⟩ := hmin.resolve_left hminNone
      obtain ⟨hi, hhi⟩ := hmax.resolve_left hmaxNone
      have hsign : ∃ s : ℤ, (if ascending then Value.int 1 else .int (-1) : Value F) = .int s := by
        cases ascending with
        | true => exact ⟨1, rfl⟩
        | false => exact ⟨-1, rfl⟩
      obtain ⟨s, hs⟩ := hsign
      have hsnum : (Value.int s : Value F).number? toRat = some (s : ℚ) := rfl
      obtain ⟨a, ha, hanum⟩ := Value.mul_number hexact hsnum hlo
      obtain ⟨b, hb, hbnum⟩ := Value.mul_number hexact hsnum hhi
      obtain ⟨first, last, l, u, htwo, hfirst, hlast, hle⟩ := sortTwo_ok hexact hanum hbnum
      obtain ⟨bs, numbers, hbs, hlen, hascend⟩ := equalWidthBoundaries_ascending hexact hfirst hlast
        hle (n := shufflePartitions) (by omega)
      refine ⟨_, ?_, dealsInOrder_range hexact (by omega) hlen hascend (fun r hr => ?_)⟩
      · simp only [hs, ha, hb, htwo, hbs, ExceptList.bind_ok]
        rfl
      · obtain ⟨v, hv⟩ := hkeys r hr
        obtain ⟨x, hx⟩ := hvalues r hr v hv
        exact ⟨v, x, hv, hx⟩

end Boundaries

end MiniSpark
