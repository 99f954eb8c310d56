import MiniSpark.SpillThresholds

/-!
# Iterating a partition again

Filters and projections run again over the partition below them. That partition replays what it
holds, unless it comes from a sort, whose generator is used up, or from an operator that spilled,
whose files are gone after the first iteration.
-/
namespace MiniSpark

variable {F : Type} [PyRuntime F]

namespace PhysicalPlan

omit [PyRuntime F] in
/-- The node below the filters and projections on top of a plan. -/
def core : PhysicalPlan F → PhysicalPlan F
  | .filterExec child _ => child.core
  | .projectExec child _ _ => child.core
  | plan => plan

/-- The nodes whose partitions hold their rows, or have none. -/
def keepsRows : PhysicalPlan F → Bool
  | .filterExec _ _ => false
  | .projectExec _ _ _ => false
  | .hashAggregateExec _ _ => false
  | .sortExec _ _ => false
  | _ => true

omit [PyRuntime F] in
lemma core_ne_filterExec (plan child : PhysicalPlan F) (condition : Expression F) :
    plan.core ≠ .filterExec child condition := by
  induction plan with
  | filterExec child condition ih => exact ih
  | projectExec child columns schema ih => exact ih
  | _ => exact fun h => by cases h

omit [PyRuntime F] in
lemma core_ne_projectExec (plan child : PhysicalPlan F) (columns : List (Expression F))
    (schema : Schema) : plan.core ≠ .projectExec child columns schema := by
  induction plan with
  | filterExec child condition ih => exact ih
  | projectExec child columns schema ih => exact ih
  | _ => exact fun h => by cases h

/-- What the filters and projections on top of a plan make of the rows of its core. -/
def streamed : PhysicalPlan F → List (Record F) → Py (List (Record F))
  | .filterExec child condition, rows => streamed child rows >>= filterRows condition
  | .projectExec child columns schema, rows =>
      streamed child rows >>= projectRows schema.fieldNames columns
  | _, rows => .ok rows

end PhysicalPlan

section Streaming

lemma streamed_nil (plan : PhysicalPlan F) : plan.streamed [] = .ok [] := by
  induction plan with
  | filterExec child condition ih => rw [PhysicalPlan.streamed, ih]; rfl
  | projectExec child columns schema ih => rw [PhysicalPlan.streamed, ih]; rfl
  | _ => rfl

lemma filterRows_append {condition : Expression F} {xs ys out : List (Record F)}
    (h : filterRows condition (xs ++ ys) = .ok out) :
    ∃ first rest, filterRows condition xs = .ok first ∧ filterRows condition ys = .ok rest ∧
      out = first ++ rest := by
  obtain ⟨hall, rfl⟩ := ExceptList.filterE_eq_ok.mp h
  rw [List.forall_mem_append] at hall
  exact ⟨_, _, ExceptList.filterE_eq_ok.mpr ⟨hall.1, rfl⟩, ExceptList.filterE_eq_ok.mpr ⟨hall.2, rfl⟩,
    List.filter_append _ _⟩

lemma projectRows_append {names : List String} {columns : List (Expression F)}
    {xs ys out : List (Record F)} (h : projectRows names columns (xs ++ ys) = .ok out) :
    ∃ first rest, projectRows names columns xs = .ok first ∧
      projectRows names columns ys = .ok rest ∧ out = first ++ rest := by
  unfold projectRows at h
  rw [List.mapM_append] at h
  obtain ⟨first, hfirst, h⟩ := ExceptList.bind_eq_ok.mp h
  obtain ⟨rest, hrest, h⟩ := ExceptList.bind_eq_ok.mp h
  cases h
  exact ⟨first, rest, hfirst, hrest, rfl⟩

/-- Rows are streamed one after the other. -/
lemma streamed_append {plan : PhysicalPlan F} {xs ys out : List (Record F)}
    (h : plan.streamed (xs ++ ys) = .ok out) :
    ∃ first rest, plan.streamed xs = .ok first ∧ plan.streamed ys = .ok rest ∧
      out = first ++ rest := by
  induction plan generalizing out with
  | filterExec child condition ih =>
      obtain ⟨mid, hmid, hout⟩ := ExceptList.bind_eq_ok.mp h
      obtain ⟨first, rest, hfirst, hrest, rfl⟩ := ih hmid
      obtain ⟨kept, left, hkept, hleft, rfl⟩ := filterRows_append hout
      exact ⟨kept, left, by rw [PhysicalPlan.streamed, hfirst]; exact hkept,
        by rw [PhysicalPlan.streamed, hrest]; exact hleft, rfl⟩
  | projectExec child columns schema ih =>
      obtain ⟨mid, hmid, hout⟩ := ExceptList.bind_eq_ok.mp h
      obtain ⟨first, rest, hfirst, hrest, rfl⟩ := ih hmid
      obtain ⟨some, left, hsome, hleft, rfl⟩ := projectRows_append hout
      exact ⟨some, left, by rw [PhysicalPlan.streamed, hfirst]; exact hsome,
        by rw [PhysicalPlan.streamed, hrest]; exact hleft, rfl⟩
  | _ =>
      cases h
      exact ⟨xs, ys, rfl, rfl, rfl⟩

/-- Nothing comes through when no single row does. -/
lemma streamed_eq_nil {plan : PhysicalPlan F} {rows out : List (Record F)}
    (h : plan.streamed rows = .ok out) :
    out = [] ↔ ∀ r ∈ rows, plan.streamed [r] = .ok [] := by
  induction rows generalizing out with
  | nil =>
      rw [streamed_nil] at h
      cases h
      simp
  | cons r rows ih =>
      obtain ⟨first, rest, hfirst, hrest, rfl⟩ := streamed_append (show plan.streamed ([r] ++ rows) = .ok out from h)
      rw [List.append_eq_nil_iff, ih hrest, List.forall_mem_cons, hfirst, Except.ok.injEq]

end Streaming

section Cores

variable [PyHost F] {read : ℕ → ℕ → Py (List (Record F))} {plan : PhysicalPlan F} {pid : ℕ}

/-- Every iteration streams the rows of an iteration over the core. -/
lemma executePartition_core {p : Partition F} (h : executePartition read plan pid = .ok p) :
    ∃ q, executePartition read plan.core pid = .ok q ∧
      ∀ k, p.pass k = q.pass k >>= plan.streamed := by
  induction plan generalizing p with
  | filterExec child condition ih =>
      obtain ⟨parent, hparent, h⟩ := ExceptList.bind_eq_ok.mp h
      cases h
      obtain ⟨q, hq, hpass⟩ := ih hparent
      refine ⟨q, hq, fun k => ?_⟩
      show parent.pass k >>= filterRows condition = _
      rw [hpass, bind_assoc]
      rfl
  | projectExec child columns schema ih =>
      obtain ⟨parent, hparent, h⟩ := ExceptList.bind_eq_ok.mp h
      cases h
      obtain ⟨q, hq, hpass⟩ := ih hparent
      refine ⟨q, hq, fun k => ?_⟩
      show parent.pass k >>= projectRows schema.fieldNames columns = _
      rw [hpass, bind_assoc]
      rfl
  | _ => exact ⟨p, h, fun k => (bind_pure (p.pass k)).symm⟩

/-- The rows that the first iteration over a child yields. -/
def firstRows (read : ℕ → ℕ → Py (List (Record F))) (child : PhysicalPlan F) (pid : ℕ) :
    Py (List (Record F)) := executePartition read child pid >>= Partition.toList

/-- The partition of a plan can be iterated again: below the filters and projections there is no
aggregation that spills, and no sort, or one that does not spill and of whose rows none comes
through the filters. -/
def Reiterates (read : ℕ → ℕ → Py (List (Record F))) (plan : PhysicalPlan F) (pid : ℕ) : Prop :=
  match plan.core with
  | .hashAggregateExec child spec => ∀ aggs rows, spec.aggregates.mapM unwrapAggregate = .ok aggs →
      firstRows read child pid = .ok rows → FitsTable spec aggs rows
  | .sortExec child spec => ∀ rows, firstRows read child pid = .ok rows →
      FitsBuffer spec rows ∧ ∀ r ∈ rows, plan.streamed [r] = .ok []
  | _ => True

/-- Scans, shuffle reads and joins replay the rows that they hold. -/
lemma executePartition_recomputable {q : Partition F} (hplan : plan.keepsRows = true)
    (hq : executePartition read plan pid = .ok q) : q.Recomputable := by
  cases plan with
  | scanExec dataset sourceName =>
      refine dataset.recomputable q ?_
      unfold executePartition Dataset.partition at hq
      split at hq
      · next hget =>
          cases hq
          exact List.mem_of_getElem? hget
      · cases hq
  | shuffleReadExec stageId schema isBroadcast =>
      obtain ⟨rows, -, hq⟩ := ExceptList.bind_eq_ok.mp hq
      cases hq
      exact fun _ => rfl
  | hashJoinExec left right leftKeys rightKeys on schema =>
      obtain ⟨leftPart, -, hq⟩ := ExceptList.bind_eq_ok.mp hq
      obtain ⟨rightPart, -, hq⟩ := ExceptList.bind_eq_ok.mp hq
      obtain ⟨leftRows, -, hq⟩ := ExceptList.bind_eq_ok.mp hq
      obtain ⟨table, -, hq⟩ := ExceptList.bind_eq_ok.mp hq
      obtain ⟨rightRows, -, hq⟩ := ExceptList.bind_eq_ok.mp hq
      cases hq
      exact fun _ => rfl
  | exchangeExec child n exprs isBroadcast boundaries => cases hq
  | shuffleWriteExec child n exprs boundaries => cases hq
  | _ => cases hplan

omit [PyHost F] in
lemma pass_of_recomputable {q : Partition F} {rows : List (Record F)} (hq : q.Recomputable)
    (hrows : q.pass 0 >>= plan.streamed = .ok rows) (k : ℕ) :
    q.pass k >>= plan.streamed = .ok rows := by rw [hq k, hrows]

/-- The rows of a plan over an aggregation are there again unless the aggregation spilled. -/
lemma aggregate_reiterates {spec : HashAggregate F} {q parent : Partition F} {rows : List (Record F)}
    (hq : hashAggregatePartition spec pid parent = .ok q)
    (hrows : q.pass 0 >>= plan.streamed = .ok rows) :
    (∀ k, q.pass k >>= plan.streamed = .ok rows) ↔
      ∀ aggs input, spec.aggregates.mapM unwrapAggregate = .ok aggs →
        parent.toList = .ok input → FitsTable spec aggs input := by
  obtain ⟨aggs, haggs, hq⟩ := ExceptList.bind_eq_ok.mp hq
  obtain ⟨input, hinput, hq⟩ := ExceptList.bind_eq_ok.mp hq
  obtain ⟨acc, hacc, hq⟩ := ExceptList.bind_eq_ok.mp hq
  have hspilled := (accumulate_rows_tracksTable hacc).spilled
  cases hq
  constructor
  · intro hall aggs' input' haggs' hinput'
    obtain rfl : aggs = aggs' := Except.ok.inj (haggs.symm.trans haggs')
    obtain rfl : input = input' := Except.ok.inj (hinput.symm.trans hinput')
    by_contra hfull
    -- the second iteration finds no file
    have hagain := hall 1
    dsimp only at hagain
    rw [if_pos ⟨hspilled.mpr hfull, one_ne_zero⟩] at hagain
    cases hagain
  · intro hfits
    have hnot : acc.spilled ≠ true := fun h => hspilled.mp h (hfits aggs input haggs hinput)
    refine pass_of_recomputable (fun k => ?_) hrows
    dsimp only
    rw [if_neg (fun h => hnot h.1), if_neg (fun h => hnot h.1)]

/-- The rows of a plan over a sort are there again only where there are none. -/
lemma sort_reiterates {spec : Sorting F} {q parent : Partition F} {rows : List (Record F)}
    (hq : sortPartition spec pid parent = .ok q) (hrows : q.pass 0 >>= plan.streamed = .ok rows) :
    (∀ k, q.pass k >>= plan.streamed = .ok rows) ↔
      ∀ input, parent.toList = .ok input →
        FitsBuffer spec input ∧ ∀ r ∈ input, plan.streamed [r] = .ok [] := by
  obtain ⟨input, hinput, hq⟩ := ExceptList.bind_eq_ok.mp hq
  obtain ⟨runs, hruns, hq⟩ := ExceptList.bind_eq_ok.mp hq
  have hspilled := sortedRuns_spilled hruns
  cases hq
  have hempty : runs.spilled = [] → (rows = [] ↔ ∀ r ∈ input, plan.streamed [r] = .ok []) := by
    intro hnone
    dsimp only at hrows
    rw [if_pos rfl, SortedRuns.rows, if_pos hnone, ExceptList.bind_ok] at hrows
    rw [streamed_eq_nil hrows]
    exact forall_congr' (fun r => by rw [(sortedRuns_perm hruns hnone).mem_iff])
  constructor
  · intro hall input' hinput'
    obtain rfl : input = input' := Except.ok.inj (hinput.symm.trans hinput')
    have hagain := hall 1
    dsimp only at hagain
    rw [if_neg one_ne_zero] at hagain
    by_cases hnone : runs.spilled = []
    · rw [if_pos hnone, ExceptList.bind_ok, streamed_nil] at hagain
      cases hagain
      exact ⟨hspilled.mp hnone, (hempty hnone).mp rfl⟩
    · rw [if_neg hnone] at hagain
      cases hagain
  · intro hall k
    obtain ⟨hfits, hdropped⟩ := hall input hinput
    have hnone := hspilled.mpr hfits
    cases k with
    | zero => exact hrows
    | succ k =>
        dsimp only
        rw [if_neg (Nat.succ_ne_zero k), if_pos hnone, ExceptList.bind_ok, streamed_nil,
          (hempty hnone).mpr hdropped]

/-- A partition whose first iteration ends yields the same rows on every iteration exactly when
its plan reiterates. -/
theorem executePartition_reiterates_iff {p : Partition F} {rows : List (Record F)}
    (hp : executePartition read plan pid = .ok p) (hrows : p.pass 0 = .ok rows) :
    (∀ k, p.pass k = .ok rows) ↔ Reiterates read plan pid := by
  obtain ⟨q, hq, hpass⟩ := executePartition_core hp
  simp only [hpass] at hrows ⊢
  unfold Reiterates firstRows
  cases hcore : plan.core with
  | hashAggregateExec child spec =>
      rw [hcore] at hq
      obtain ⟨parent, hparent, hq⟩ := ExceptList.bind_eq_ok.mp hq
      simp only [hparent, ExceptList.bind_ok]
      exact aggregate_reiterates hq hrows
  | sortExec child spec =>
      rw [hcore] at hq
      obtain ⟨parent, hparent, hq⟩ := ExceptList.bind_eq_ok.mp hq
      simp only [hparent, ExceptList.bind_ok]
      exact sort_reiterates hq hrows
  | filterExec child condition => exact absurd hcore (PhysicalPlan.core_ne_filterExec plan child condition)
  | projectExec child columns schema =>
      exact absurd hcore (PhysicalPlan.core_ne_projectExec plan child columns schema)
  | _ =>
      rw [hcore] at hq
      refine iff_of_true (pass_of_recomputable ?_ hrows) trivial
      exact executePartition_recomputable (by rfl) hq

end Cores

section Example

def oneColumn : Schema := ⟨[⟨"x", .int, true⟩], List.nodup_singleton "x"⟩

def oneRow : Record ℚ := OrderedDict.ofList [("x", .int 1)]

/-- A sort by the column, whose threshold one row does not reach. -/
def byColumn : Sorting ℚ := ⟨[(.column "x", true)], oneColumn, 1000⟩

def sortedRow : PhysicalPlan ℚ :=
  .sortExec (.scanExec (rowsDataset oneColumn [[oneRow]]) "memory") byColumn

/-- No stage is read. -/
def readNothing (_stageId _pid : ℕ) : Py (List (Record ℚ)) := .ok []

lemma sortedRow_executes : ∃ p, executePartition readNothing sortedRow 0 = .ok p ∧
    p.pass 0 = .ok [oneRow] ∧ p.pass 1 = .ok [] := by
  have hsort : sortRows [(0, oneRow)] byColumn.keys = .ok [(0, oneRow)] := by
    have hcompare : checkComparable sentinelLt [(false, (.int 1 : Value ℚ))] = .ok () := by rfl
    show pySort sentinelLt false [((false, (.int 1 : Value ℚ)), ((0, oneRow) : Arrival ℚ))] >>=
      pure = _
    simp [pySort, hcompare]
  have hbuffer : [oneRow].foldlM (bufferRow byColumn) ⟨0, [], 0, []⟩ =
      .ok ⟨1, [(0, oneRow)], 28, []⟩ := by rfl
  have hruns : sortedRuns byColumn [oneRow] = .ok ⟨[(0, oneRow)], []⟩ := by
    rw [sortedRuns, hbuffer, ExceptList.bind_ok, hsort]
    rfl
  have hpart : executePartition readNothing sortedRow 0 =
      sortPartition byColumn 0 (rowsPartition 0 oneColumn [oneRow]) := rfl
  have hrun : (rowsPartition 0 oneColumn [oneRow]).toList = .ok [oneRow] := rfl
  exact ⟨_, by rw [hpart, sortPartition, hrun, ExceptList.bind_ok, hruns, ExceptList.bind_ok]; rfl,
    rfl, rfl⟩

/-- A sort of one row. -/
theorem executePartition_reiterates_iff_sorted : ∃ p rows,
    executePartition readNothing sortedRow 0 = .ok p ∧ p.pass 0 = .ok rows ∧
      ((∀ k, p.pass k = .ok rows) ↔ Reiterates readNothing sortedRow 0) := by
  obtain ⟨p, hp, hfirst, -⟩ := sortedRow_executes
  exact ⟨p, _, hp, hfirst, executePartition_reiterates_iff hp hfirst⟩

/-- The second iteration over a sorted row yields nothing. -/
theorem sortedRow_used_up : ¬ ∀ p rows, executePartition readNothing sortedRow 0 = .ok p →
    p.pass 0 = .ok rows → ∀ k, p.pass k = .ok rows := by
  intro hall
  obtain ⟨p, hp, hfirst, hsecond⟩ := sortedRow_executes
  have hagain := hall p _ hp hfirst 1
  rw [hagain] at hsecond
  cases hsecond

end Example

end MiniSpark
