import MiniSpark.RowOperators
import MiniSpark.StableSort

/-!
# The sort operator

Multi-key sorting by repeated stable passes, last key first, and the external
merge of sorted runs by one composite key ending in the arrival number. Sorting
and merging compare keys with `<`; when two of the keys cannot be compared the
comparison that meets them raises, so it is enough to try every pair. Keys that
`<` does not order totally (NaN) are outside what a sort promises.
-/
namespace MiniSpark

variable {F : Type} [PyRuntime F]

/-- A row with its arrival number. -/
abbrev Arrival (F : Type) := ℕ × Record F

/-- Every comparison of two of the keys returns. -/
def checkComparable {κ : Type} (lt : κ → κ → Py Bool) (keys : List κ) : Py Unit := do
  let _ ← keys.mapM (fun a => keys.mapM (fun b => lt a b))
  pure ()

/-- `a <= b` by `<`: `b < a` is not true. -/
def notLt {κ : Type} (lt : κ → κ → Py Bool) (a b : κ) : Bool := !ExceptList.verdict (lt b) a

/-- `items.sort(key=..., reverse=...)`: stable in both directions. -/
def pySort {κ α : Type} (lt : κ → κ → Py Bool) (reverse : Bool) (items : List (κ × α)) :
    Py (List α) := do
  checkComparable lt (items.map Prod.fst)
  let sorted := items.mergeSort (fun a b => if reverse then notLt lt b.1 a.1 else notLt lt a.1 b.1)
  pure (sorted.map Prod.snd)

/-- `heapq.merge(*runs, key=...)` on runs already sorted by the key. -/
def heapqMerge {κ α : Type} (lt : κ → κ → Py Bool) (runs : List (List (κ × α))) : Py (List α) := do
  checkComparable lt (runs.flatten.map Prod.fst)
  pure ((StableSort.mergeAll (fun a b => notLt lt a.1 b.1) runs).map Prod.snd)

/-- `_null_last_sort_key`: the sentinel is flipped for a descending column. -/
def nullLastSortKey (e : Expression F) (ascending : Bool) (record : Record F) :
    Py (Bool × Value F) := do
  let value ← e.evaluate record
  let isNull := value.isNone
  pure (if ascending then isNull else !isNull, if isNull then .int 0 else value)

/-- `<` on `(sentinel, value)` tuples: the first unequal component decides. -/
def sentinelLt (a b : Bool × Value F) : Py Bool :=
  if a.1 == b.1 then (if a.2 == b.2 then .ok false else a.2.lt b.2)
  else .ok (decide (a.1 < b.1))

/-- One stable pass of `_sort_rows`. -/
def sortPass (k : Expression F × Bool) (rows : List (Arrival F)) : Py (List (Arrival F)) := do
  let keyed ← rows.mapM (fun p => do
    let key ← nullLastSortKey k.1 k.2 p.2
    pure (key, p))
  pySort sentinelLt (!k.2) keyed

/-- `_sort_rows`: last key first. -/
def sortRows (rows : List (Arrival F)) (keys : List (Expression F × Bool)) :
    Py (List (Arrival F)) :=
  keys.reverse.foldlM (fun rows k => sortPass k rows) rows

/-- Two consecutive parts of a composite key: the null flag and the value,
wrapped in `_Desc` when the column is descending. -/
structure SortPart (F : Type) where
  isNull : Bool
  ascending : Bool
  value : Value F

/-- `_composite_sort_key`: the parts of every column, then the arrival number. -/
def compositeSortKey (keys : List (Expression F × Bool)) (p : Arrival F) :
    Py (List (SortPart F) × ℕ) := do
  let parts ← keys.mapM (fun k => do
    let value ← k.1.evaluate p.2
    pure (⟨value.isNone, k.2, if value.isNone then .int 0 else value⟩ : SortPart F))
  pure (parts, p.1)

/-- `<` on composite keys. `_Desc` flips the comparison of its values. -/
def compositeLt : List (SortPart F) × ℕ → List (SortPart F) × ℕ → Py Bool
  | (a :: as, i), (b :: bs, j) =>
      if a.isNull == b.isNull then
        if a.value == b.value then compositeLt (as, i) (bs, j)
        else if a.ascending then a.value.lt b.value else b.value.lt a.value
      else .ok (decide (a.isNull < b.isNull))
  | (_, i), (_, j) => .ok (decide (i < j))

/-- The parameters of a `SortExec`. -/
structure Sorting (F : Type) where
  keys : List (Expression F × Bool)
  schema : Schema
  spillThresholdBytes : ℤ

/-- `_estimate_record_bytes`. -/
def estimateRecordBytes [PyHost F] (record : Record F) : ℤ :=
  ((record.items.map (fun p => PyHost.getsizeof p.2)).sum : ℕ)

/-- The variables of the buffering loop; `runs` are the spilled runs. -/
structure SortBuffer (F : Type) where
  next : ℕ
  buffer : List (Arrival F)
  bufferBytes : ℤ
  runs : List (List (Arrival F))

/-- One iteration of the buffering loop. -/
def bufferRow [PyHost F] (plan : Sorting F) (st : SortBuffer F) (record : Record F) :
    Py (SortBuffer F) :=
  let buffer := st.buffer ++ [(st.next, record)]
  let bytes := st.bufferBytes + estimateRecordBytes record
  if bytes ≥ plan.spillThresholdBytes then do
    let run ← sortRows buffer plan.keys
    pure ⟨st.next + 1, [], 0, st.runs ++ [run]⟩
  else pure ⟨st.next + 1, buffer, bytes, st.runs⟩

/-- Attach its composite key to every row of a run. -/
def keyedRun (keys : List (Expression F × Bool)) (run : List (Arrival F)) :
    Py (List ((List (SortPart F) × ℕ) × Arrival F)) :=
  run.mapM (fun p => do
    let key ← compositeSortKey keys p
    pure (key, p))

/-- Merge the final run, listed first, with the spilled runs. -/
def mergeRuns (keys : List (Expression F × Bool)) (runs : List (List (Arrival F))) :
    Py (List (Record F)) := do
  let keyed ← runs.mapM (keyedRun keys)
  let merged ← heapqMerge compositeLt keyed
  pure (merged.map Prod.snd)

/-- What the buffering loop leaves behind, the remainder sorted as well. -/
structure SortedRuns (F : Type) where
  finalRun : List (Arrival F)
  spilled : List (List (Arrival F))

/-- The eager part of `_execute_sort_partition`. -/
def sortedRuns [PyHost F] (plan : Sorting F) (rows : List (Record F)) : Py (SortedRuns F) := do
  let st ← rows.foldlM (bufferRow plan) ⟨0, [], 0, []⟩
  let finalRun ← sortRows st.buffer plan.keys
  pure ⟨finalRun, st.runs⟩

/-- The rows of the first iteration over the sorted partition. -/
def SortedRuns.rows (keys : List (Expression F × Bool)) (r : SortedRuns F) : Py (List (Record F)) :=
  if r.spilled = [] then .ok (r.finalRun.map Prod.snd)
  else mergeRuns keys (r.finalRun :: r.spilled)

section Permutation

omit [PyRuntime F] in
theorem pySort_perm {κ α : Type} {lt : κ → κ → Py Bool} {reverse : Bool} {items : List (κ × α)}
    {out : List α} (h : pySort lt reverse items = .ok out) : out.Perm (items.map Prod.snd) := by
  obtain ⟨_, _, h⟩ := ExceptList.bind_eq_ok.mp h
  cases h
  exact (List.mergeSort_perm _ _).map _

theorem sortPass_perm {k : Expression F × Bool} {rows out : List (Arrival F)}
    (h : sortPass k rows = .ok out) : out.Perm rows := by
  obtain ⟨keyed, hkeyed, h⟩ := ExceptList.bind_eq_ok.mp h
  have hsnd := (ExceptList.mapM_keyed_eq_ok.mp hkeyed).1
  exact hsnd ▸ pySort_perm h

/-- Sorting permutes. -/
theorem sortRows_perm {keys : List (Expression F × Bool)} {rows out : List (Arrival F)}
    (h : sortRows rows keys = .ok out) : out.Perm rows := by
  unfold sortRows at h
  generalize keys.reverse = ks at h
  induction ks generalizing rows with
  | nil => cases h; exact List.Perm.refl _
  | cons k ks ih =>
      rw [List.foldlM_cons] at h
      obtain ⟨mid, hmid, h⟩ := ExceptList.bind_eq_ok.mp h
      exact (ih h).trans (sortPass_perm hmid)

end Permutation

end MiniSpark
