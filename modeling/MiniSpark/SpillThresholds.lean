import MiniSpark.Operators
import Mathlib.Algebra.Order.BigOperators.Group.List

/-!
# When an operator spills

An aggregation spills as soon as the table of the rows read so far is as large as the threshold,
a sort as soon as the rows themselves are. Both are told from the input alone: the table and the
buffer that the operators keep are those of the whole input until the first spill.
-/
namespace MiniSpark

variable {F : Type} [PyRuntime F]

section Tables

variable {spec : HashAggregate F} {aggs : List (AggregateFunction F)} {rows : List (Record F)}

/-- The group table with one more row, when there is no threshold. -/
def tableStep (spec : HashAggregate F) (aggs : List (AggregateFunction F)) (groups : GroupTable F)
    (record : Record F) : Py (GroupTable F) := do
  let key ← tupleKey spec.groupBy record
  let state ← nextState spec.isPartial aggs (groups.get? key) record
  pure (groups.set key state)

variable [PyHost F]

/-- The estimated size of a group table. -/
def tableBytes (groups : GroupTable F) : ℤ :=
  (groups.items.map (fun p => estimateGroupBytes p.1 p.2)).sum

/-- The tables of the first rows stay below the threshold, as far as they can be built. -/
def FitsTable (spec : HashAggregate F) (aggs : List (AggregateFunction F))
    (rows : List (Record F)) : Prop :=
  ∀ pre groups, pre ≠ [] → pre <+: rows →
    pre.foldlM (tableStep spec aggs) OrderedDict.empty = .ok groups →
      tableBytes groups < spec.spillThresholdBytes

lemma FitsTable.mono {pre : List (Record F)} (h : FitsTable spec aggs rows)
    (hpre : pre <+: rows) : FitsTable spec aggs pre :=
  fun p groups hne hp hgroups => h p groups hne (hp.trans hpre) hgroups

/-- The size of a table after a write, whichever of two equal keys is stored. -/
lemma tableBytes_set (groups : GroupTable F) (key state : List (Value F)) :
    tableBytes (groups.set key state) = tableBytes groups -
      ((groups.get? key).map (estimateGroupBytes key)).getD 0 + estimateGroupBytes key state := by
  unfold tableBytes
  rw [OrderedDict.items_set, OrderedDict.get?]
  obtain ⟨hfind, hset⟩ | ⟨pre, p, post, hitems, -, hfind, hset⟩ :=
    OrderedDict.setItems_cases key state groups.items
  · rw [hfind, hset]
    simp
  · rw [hfind, hset, hitems]
    simp only [estimateGroupBytes, List.map_append, List.map_cons, List.sum_append, List.sum_cons,
      Option.map_some, Option.getD_some]
    push_cast
    omega

/-- What the accumulation of some rows leaves, told from the rows. -/
structure TracksTable (spec : HashAggregate F) (aggs : List (AggregateFunction F))
    (rows : List (Record F)) (acc : Accumulation F) : Prop where
  spilled : acc.spilled = true ↔ ¬ FitsTable spec aggs rows
  table : acc.spilled = false → rows.foldlM (tableStep spec aggs) OrderedDict.empty = .ok acc.groups
  bytes : acc.spilled = false → acc.groupsBytes = tableBytes acc.groups

lemma tracksTable_start : TracksTable spec aggs [] (Accumulation.start F) where
  spilled := by
    constructor
    · intro h
      cases h
    · intro h
      exact absurd (fun pre _ hne hpre => absurd (List.prefix_nil.mp hpre) hne) h
  table _ := rfl
  bytes _ := rfl

/-- One more row is counted as its table is. -/
lemma accumulate_tracksTable {acc acc' : Accumulation F} {r : Record F}
    (h : TracksTable spec aggs rows acc) (hacc : accumulate spec aggs acc r = .ok acc') :
    TracksTable spec aggs (rows ++ [r]) acc' := by
  unfold accumulate at hacc
  obtain ⟨key, hkey, hacc⟩ := ExceptList.bind_eq_ok.mp hacc
  obtain ⟨state, hstate, hacc⟩ := ExceptList.bind_eq_ok.mp hacc
  dsimp only at hacc
  have hbefore : rows <+: rows ++ [r] := List.prefix_append rows [r]
  cases hspilled : acc.spilled with
  | true =>
      have hfull : ¬ FitsTable spec aggs (rows ++ [r]) :=
        fun hfits => h.spilled.mp hspilled (hfits.mono hbefore)
      have hstill : acc'.spilled = true := by
        split at hacc
        · obtain ⟨paths, -, hacc⟩ := ExceptList.bind_eq_ok.mp hacc
          cases hacc
          rfl
        · cases hacc
          exact hspilled
      exact ⟨iff_of_true hstill hfull, by simp [hstill], by simp [hstill]⟩
  | false =>
      have hfits : FitsTable spec aggs rows := by
        by_contra hnot
        rw [h.spilled.mpr hnot] at hspilled
        cases hspilled
      have htable : (rows ++ [r]).foldlM (tableStep spec aggs) OrderedDict.empty =
          .ok (acc.groups.set key state) := by
        rw [List.foldlM_append, h.table hspilled, ExceptList.bind_ok, List.foldlM_cons, tableStep,
          hkey, ExceptList.bind_ok, hstate]
        rfl
      have hbytes : tableBytes (acc.groups.set key state) = acc.groupsBytes -
          ((acc.groups.get? key).map (estimateGroupBytes key)).getD 0 +
            estimateGroupBytes key state := by
        rw [tableBytes_set, h.bytes hspilled]
      rw [← hbytes] at hacc
      split at hacc
      · next hge =>
          obtain ⟨paths, -, hacc⟩ := ExceptList.bind_eq_ok.mp hacc
          cases hacc
          refine ⟨iff_of_true rfl (fun hall => ?_), by simp, by simp⟩
          have := hall (rows ++ [r]) _ (by simp) List.prefix_rfl htable
          omega
      · next hlt =>
          cases hacc
          refine ⟨iff_of_false (by simp [hspilled]) (not_not_intro ?_), fun _ => htable,
            fun _ => rfl⟩
          intro pre groups hne hpre hgroups
          cases List.prefix_concat_iff.mp hpre with
          | inl he =>
              subst he
              rw [htable] at hgroups
              cases hgroups
              omega
          | inr hp => exact hfits pre groups hne hp hgroups

/-- An accumulation that ends has spilled when a table of its first rows reached the threshold. -/
theorem accumulate_rows_tracksTable {acc : Accumulation F}
    (h : rows.foldlM (accumulate spec aggs) (Accumulation.start F) = .ok acc) :
    TracksTable spec aggs rows acc := by
  induction rows using List.reverseRecOn generalizing acc with
  | nil =>
      cases h
      exact tracksTable_start
  | append_singleton rows r ih =>
      rw [List.foldlM_append] at h
      obtain ⟨before, hbefore, hlast⟩ := ExceptList.bind_eq_ok.mp h
      rw [List.foldlM_cons] at hlast
      obtain ⟨after, hafter, hnil⟩ := ExceptList.bind_eq_ok.mp hlast
      cases hnil
      exact accumulate_tracksTable (ih hbefore) hafter

end Tables

section Buffers

variable [PyHost F] {spec : Sorting F} {rows : List (Record F)}

/-- The rows together stay below the threshold. -/
def FitsBuffer (spec : Sorting F) (rows : List (Record F)) : Prop :=
  rows ≠ [] → (rows.map estimateRecordBytes).sum < spec.spillThresholdBytes

lemma FitsBuffer.mono {pre : List (Record F)} (h : FitsBuffer spec rows) (hpre : pre <+: rows) :
    FitsBuffer spec pre := by
  obtain ⟨post, rfl⟩ := hpre
  intro hne
  have hall := h (by simp [hne])
  have hpos : 0 ≤ (post.map estimateRecordBytes).sum := by
    refine List.sum_nonneg (fun x hx => ?_)
    obtain ⟨r, -, rfl⟩ := List.mem_map.mp hx
    unfold estimateRecordBytes
    omega
  rw [List.map_append, List.sum_append] at hall
  omega

/-- What the buffering of some rows leaves, told from the rows. -/
structure TracksBuffer (spec : Sorting F) (rows : List (Record F)) (st : SortBuffer F) : Prop where
  spilled : st.runs = [] ↔ FitsBuffer spec rows
  buffer : st.runs = [] → st.buffer.map Prod.snd = rows
  bytes : st.runs = [] → st.bufferBytes = (rows.map estimateRecordBytes).sum

lemma bufferRow_tracksBuffer {st st' : SortBuffer F} {r : Record F} (h : TracksBuffer spec rows st)
    (hst : bufferRow spec st r = .ok st') : TracksBuffer spec (rows ++ [r]) st' := by
  unfold bufferRow at hst
  dsimp only at hst
  have hsum : ((rows ++ [r]).map estimateRecordBytes).sum =
      (rows.map estimateRecordBytes).sum + estimateRecordBytes r := by simp
  split at hst
  · next hge =>
      obtain ⟨run, -, hst⟩ := ExceptList.bind_eq_ok.mp hst
      cases hst
      have hruns : st.runs ++ [run] ≠ [] := by simp
      refine ⟨iff_of_false hruns (fun hfits => ?_), fun he => absurd he hruns,
        fun he => absurd he hruns⟩
      have hbytes := h.bytes (h.spilled.mpr (hfits.mono (List.prefix_append rows [r])))
      have hall := hfits (by simp)
      omega
  · next hlt =>
      cases hst
      refine ⟨⟨fun hruns _ => ?_, fun hfits =>
        h.spilled.mpr (hfits.mono (List.prefix_append rows [r]))⟩, fun hruns => ?_,
        fun hruns => ?_⟩
      · have hbytes := h.bytes hruns
        omega
      · rw [List.map_append, h.buffer hruns]
        rfl
      · rw [hsum, ← h.bytes hruns]

/-- A buffering that ends has spilled when its rows reached the threshold. -/
theorem bufferRows_tracksBuffer {st : SortBuffer F}
    (h : rows.foldlM (bufferRow spec) ⟨0, [], 0, []⟩ = .ok st) : TracksBuffer spec rows st := by
  induction rows using List.reverseRecOn generalizing st with
  | nil =>
      cases h
      exact ⟨iff_of_true rfl (fun hne => absurd rfl hne), fun _ => rfl, fun _ => rfl⟩
  | append_singleton rows r ih =>
      rw [List.foldlM_append] at h
      obtain ⟨before, hbefore, hlast⟩ := ExceptList.bind_eq_ok.mp h
      rw [List.foldlM_cons] at hlast
      obtain ⟨after, hafter, hnil⟩ := ExceptList.bind_eq_ok.mp hlast
      cases hnil
      exact bufferRow_tracksBuffer (ih hbefore) hafter

end Buffers

section Sorted

variable [PyHost F] {spec : Sorting F} {rows : List (Record F)} {runs : SortedRuns F}

theorem sortedRuns_spilled (h : sortedRuns spec rows = .ok runs) :
    runs.spilled = [] ↔ FitsBuffer spec rows := by
  obtain ⟨st, hst, h⟩ := ExceptList.bind_eq_ok.mp h
  obtain ⟨finalRun, -, h⟩ := ExceptList.bind_eq_ok.mp h
  cases h
  exact (bufferRows_tracksBuffer hst).spilled

/-- An unspilled sort holds the rows in another order. -/
theorem sortedRuns_perm (h : sortedRuns spec rows = .ok runs) (hruns : runs.spilled = []) :
    (runs.finalRun.map Prod.snd).Perm rows := by
  obtain ⟨st, hst, h⟩ := ExceptList.bind_eq_ok.mp h
  obtain ⟨finalRun, hfinal, h⟩ := ExceptList.bind_eq_ok.mp h
  cases h
  rw [← (bufferRows_tracksBuffer hst).buffer hruns]
  exact (sortRows_perm hfinal).map Prod.snd

end Sorted

end MiniSpark
