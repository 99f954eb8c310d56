import MiniSpark.Dealing
import MiniSpark.Operators
import MiniSpark.SortOrder

/-!
# Sorting a partition

The sorted partition is the stable sort of its input, however the input was cut into
spilled runs. Rows carry their arrival numbers: a run is the stable sort of a stretch of
arrivals, so it is sorted by the columns and then by arrival, which is what the composite
key compares. Merging by that key sorts all arrivals, and no two of them tie.
-/
namespace MiniSpark

open StableSort

variable {F : Type} [PyRuntime F]

/-- The order of arrivals by their rows. -/
def arrivalLe (keys : List (Expression F × Bool)) (p q : Arrival F) : Bool := rowLe keys p.2 q.2

/-- The order of arrivals by their numbers. -/
def earlier {F : Type} (p q : Arrival F) : Bool := decide (p.1 ≤ q.1)

section Passes

variable {κ α : Type}

theorem checkComparable_of_returns {lt : κ → κ → Py Bool} {keys : List κ}
    (h : ∀ a ∈ keys, ∀ b ∈ keys, ∃ r, lt a b = .ok r) : checkComparable lt keys = .ok () := by
  have hrow : ∀ a ∈ keys, ∃ rs, keys.mapM (fun b => lt a b) = .ok rs ∧ True := by
    intro a ha
    obtain ⟨rs, hrs, -⟩ := ExceptList.mapM_ok_of_exists (S := fun _ _ => True)
      (f := fun b => lt a b) (fun b hb => (h a ha b hb).imp (fun _ hr => ⟨hr, trivial⟩))
    exact ⟨rs, hrs, trivial⟩
  obtain ⟨rows, hrows, -⟩ := ExceptList.mapM_ok_of_exists (S := fun _ _ => True) hrow
  unfold checkComparable
  rw [hrows]
  rfl

/-- A sort whose keys compare as the items are ordered is the merge sort of the items. -/
theorem pySort_eq {lt : κ → κ → Py Bool} {reverse : Bool} {items : List (κ × α)}
    {le : α → α → Bool} (h : ∀ a ∈ items, ∀ b ∈ items,
      lt a.1 b.1 = .ok (!(if reverse then le a.2 b.2 else le b.2 a.2))) :
    pySort lt reverse items = .ok ((items.map Prod.snd).mergeSort le) := by
  have hkeys : ∀ a ∈ items.map Prod.fst, ∀ b ∈ items.map Prod.fst, ∃ r, lt a b = .ok r := by
    intro a ha b hb
    obtain ⟨p, hp, rfl⟩ := List.mem_map.mp ha
    obtain ⟨q, hq, rfl⟩ := List.mem_map.mp hb
    exact ⟨_, h p hp q hq⟩
  unfold pySort
  rw [checkComparable_of_returns hkeys, ExceptList.bind_ok]
  refine congrArg Except.ok (List.map_mergeSort (fun a ha b hb => ?_))
  cases reverse with
  | true => simpa [notLt] using congrArg not (ExceptList.verdict_of_ok (h a ha b hb))
  | false => simpa [notLt] using congrArg not (ExceptList.verdict_of_ok (h b hb a ha))

/-- The value of a sort expression on a row. -/
def sortValue (e : Expression F) (record : Record F) : Value F :=
  match e.evaluate record with
  | .ok v => v
  | .error _ => .none

variable {rows : List (Record F)} {e : Expression F}

theorem SortableBy.evaluate_eq (h : SortableBy e rows) {r : Record F} (hr : r ∈ rows) :
    e.evaluate r = .ok (sortValue e r) := by
  obtain ⟨v, hv⟩ := h.evaluates r hr
  rw [sortValue, hv]

theorem SortableBy.admits (h : SortableBy e rows) {r : Record F} (hr : r ∈ rows)
    (hn : (sortValue e r).isNone = false) :
    (sortValue e r).isNone = false ∧ ∃ s ∈ rows, e.evaluate s = .ok (sortValue e r) :=
  ⟨hn, r, hr, h.evaluate_eq hr⟩

theorem SortableBy.columnLe_eq {k : Expression F × Bool} (h : SortableBy k.1 rows) {a b : Record F}
    (ha : a ∈ rows) (hb : b ∈ rows) :
    columnLe k a b = nullsLastLe k.2 (sortValue k.1 a) (sortValue k.1 b) := by
  rw [columnLe, h.evaluate_eq ha, h.evaluate_eq hb]

/-- One pass is a stable sort by its column. -/
theorem sortPass_eq {k : Expression F × Bool} {items : List (Arrival F)}
    (h : SortableBy k.1 (items.map Prod.snd)) :
    sortPass k items = .ok (items.mergeSort (fun p q => columnLe k p.2 q.2)) := by
  have hmem : ∀ p ∈ items, p.2 ∈ items.map Prod.snd := fun p hp => List.mem_map_of_mem hp
  have hkeyed : items.mapM (fun p => do
      let key ← nullLastSortKey k.1 k.2 p.2
      pure (key, p)) = .ok (items.map (fun p => (sentinelKey k.2 (sortValue k.1 p.2), p))) := by
    refine ExceptList.mapM_ok_of_forall (fun p hp => ?_)
    rw [nullLastSortKey_of_ok (h.evaluate_eq (hmem p hp))]
    rfl
  have hsnd : (items.map (fun p => (sentinelKey k.2 (sortValue k.1 p.2), p))).map Prod.snd
      = items := by
    rw [List.map_map]
    exact List.map_id _
  unfold sortPass
  rw [hkeyed, ExceptList.bind_ok]
  conv_rhs => rw [← hsnd]
  refine pySort_eq (fun x hx y hy => ?_)
  obtain ⟨p, hp, rfl⟩ := List.mem_map.mp hx
  obtain ⟨q, hq, rfl⟩ := List.mem_map.mp hy
  rw [sentinelLt_eq h.comparable (h.admits (hmem p hp)) (h.admits (hmem q hq)),
    h.columnLe_eq (hmem p hp) (hmem q hq), h.columnLe_eq (hmem q hq) (hmem p hp)]
  cases k.2 <;> rfl

/-- `_sort_rows` is the stable sort by all columns. -/
theorem sortRows_isStableSort {keys : List (Expression F × Bool)} {items : List (Arrival F)}
    (h : Sortable keys (items.map Prod.snd)) :
    ∃ out, sortRows items keys = .ok out ∧ IsStableSort (arrivalLe keys) items out := by
  induction keys with
  | nil =>
      refine ⟨items, rfl, IsStableSort.of_sorted ?_⟩
      exact List.pairwise_of_forall (fun _ _ => rfl)
  | cons k keys ih =>
      have hk : SortableBy k.1 (items.map Prod.snd) := h k List.mem_cons_self
      obtain ⟨mid, hmid, hsorted⟩ := ih (fun k' hk' => h k' (List.mem_cons_of_mem _ hk'))
      -- the pass of the first column comes last
      have hpass : sortRows items (k :: keys) = sortPass k mid := by
        unfold sortRows at hmid ⊢
        rw [List.reverse_cons, List.foldlM_append, hmid]
        exact bind_pure (sortPass k mid)
      have hsub : ∀ r ∈ mid.map Prod.snd, r ∈ items.map Prod.snd := by
        intro r hr
        exact (hsorted.perm.map Prod.snd).mem_iff.mp hr
      have hpre : TotalPreorderOn (fun p q : Arrival F => columnLe k p.2 q.2) (· ∈ items) := by
        refine ⟨fun _ _ hp hq => ?_, fun _ _ _ hp hq hr => ?_⟩
        · exact hk.totalPreorder.total _ _ (List.mem_map_of_mem hp) (List.mem_map_of_mem hq)
        · exact hk.totalPreorder.trans _ _ _ (List.mem_map_of_mem hp) (List.mem_map_of_mem hq)
            (List.mem_map_of_mem hr)
      refine ⟨_, hpass.trans (sortPass_eq (hk.mono hsub)), ?_⟩
      exact IsStableSort.lex hpre hsorted
        (isStableSort_mergeSort (hpre.mono (fun p hp => hsorted.mem_iff.mp hp)))

end Passes

section MergedRuns

variable {keys : List (Expression F × Bool)} {items : List (Arrival F)}

omit [PyRuntime F] in
theorem earlier_totalPreorder (P : Arrival F → Prop) : TotalPreorderOn earlier P where
  total _ _ _ _ := by
    simp only [earlier, decide_eq_true_eq]
    omega
  trans _ _ _ _ _ _ hpq hqr := by
    simp only [earlier, decide_eq_true_eq] at *
    omega

theorem Sortable.arrivals_totalPreorder (h : Sortable keys (items.map Prod.snd)) :
    TotalPreorderOn (arrivalLe keys) (· ∈ items) where
  total _ _ hp hq :=
    h.totalPreorder.total _ _ (List.mem_map_of_mem hp) (List.mem_map_of_mem hq)
  trans _ _ _ hp hq hr := h.totalPreorder.trans _ _ _ (List.mem_map_of_mem hp)
    (List.mem_map_of_mem hq) (List.mem_map_of_mem hr)

/-- The composite key of an arrival. -/
def compositeKey (keys : List (Expression F × Bool)) (p : Arrival F) : List (SortPart F) × ℕ :=
  (keys.map (fun k => sortPart k.2 (sortValue k.1 p.2)), p.1)

theorem compositeSortKey_eq (h : Sortable keys (items.map Prod.snd)) {p : Arrival F}
    (hp : p ∈ items) : compositeSortKey keys p = .ok (compositeKey keys p) := by
  unfold compositeSortKey
  have hparts : keys.mapM (fun k => do
      let value ← k.1.evaluate p.2
      pure (⟨value.isNone, k.2, if value.isNone then .int 0 else value⟩ : SortPart F))
      = .ok (keys.map (fun k => sortPart k.2 (sortValue k.1 p.2))) := by
    refine ExceptList.mapM_ok_of_forall (fun k hk => ?_)
    rw [(h k hk).evaluate_eq (List.mem_map_of_mem hp)]
    rfl
  rw [hparts]
  rfl

/-- Composite keys compare as the rows are ordered, ties broken by arrival. -/
theorem compositeLt_eq (h : Sortable keys (items.map Prod.snd)) {p q : Arrival F}
    (hp : p ∈ items) (hq : q ∈ items) :
    compositeLt (compositeKey keys p) (compositeKey keys q)
      = .ok (!lexLe (arrivalLe keys) earlier q p) := by
  induction keys with
  | nil =>
      have hlt : decide (p.1 < q.1) = !decide (q.1 ≤ p.1) := by
        rw [Bool.eq_iff_iff]
        simp
      simpa [compositeKey, compositeLt, lexLe, arrivalLe, rowLe, earlier] using hlt
  | cons k keys ih =>
      have hk : SortableBy k.1 (items.map Prod.snd) := h k List.mem_cons_self
      have hrest := ih (fun k' hk' => h k' (List.mem_cons_of_mem _ hk'))
      have hp' : p.2 ∈ items.map Prod.snd := List.mem_map_of_mem hp
      have hq' : q.2 ∈ items.map Prod.snd := List.mem_map_of_mem hq
      have hsplit : lexLe (arrivalLe (k :: keys)) earlier q p
          = (columnLe k q.2 p.2 && (!columnLe k p.2 q.2 || lexLe (arrivalLe keys) earlier q p)) :=
        lexLe_assoc (fun p q : Arrival F => columnLe k p.2 q.2) (arrivalLe keys) earlier q p
      rw [hsplit, hk.columnLe_eq hq' hp', hk.columnLe_eq hp' hq']
      have hcons := compositeLt_cons hk.comparable (hk.admits hp') (hk.admits hq') k.2 _ _ _ _ hrest
      rw [Bool.not_not] at hcons
      exact hcons

/-- Merging runs by the composite key merges them by row and arrival. -/
theorem mergeRuns_eq {runs : List (List (Arrival F))}
    (h : Sortable keys (runs.flatten.map Prod.snd)) :
    mergeRuns keys runs
      = .ok ((mergeAll (lexLe (arrivalLe keys) earlier) runs).map Prod.snd) := by
  have hmem : ∀ run ∈ runs, ∀ p ∈ run, p ∈ runs.flatten :=
    fun run hrun p hp => List.mem_flatten_of_mem hrun hp
  have hkeyed : runs.mapM (keyedRun keys)
      = .ok (runs.map (fun run => run.map (fun p => (compositeKey keys p, p)))) := by
    refine ExceptList.mapM_ok_of_forall (fun run hrun =>
      ExceptList.mapM_ok_of_forall (fun p hp => ?_))
    rw [compositeSortKey_eq h (hmem run hrun p hp)]
    rfl
  have hflat : (runs.map (fun run => run.map (fun p => (compositeKey keys p, p)))).flatten
      = runs.flatten.map (fun p => (compositeKey keys p, p)) := by
    rw [List.map_flatten]
  have hcheck : checkComparable compositeLt
      ((runs.map (fun run => run.map (fun p => (compositeKey keys p, p)))).flatten.map Prod.fst)
      = .ok () := by
    rw [hflat, List.map_map]
    refine checkComparable_of_returns (fun a ha b hb => ?_)
    obtain ⟨p, hp, rfl⟩ := List.mem_map.mp ha
    obtain ⟨q, hq, rfl⟩ := List.mem_map.mp hb
    exact ⟨_, compositeLt_eq h hp hq⟩
  have hmerge : (mergeAll (fun a b => notLt compositeLt a.1 b.1)
      (runs.map (fun run => run.map (fun p => (compositeKey keys p, p))))).map Prod.snd
      = mergeAll (lexLe (arrivalLe keys) earlier)
        ((runs.map (fun run => run.map (fun p => (compositeKey keys p, p)))).map
          (List.map Prod.snd)) := by
    refine map_mergeAll (fun a ha b hb => ?_)
    rw [hflat] at ha hb
    obtain ⟨p, hp, rfl⟩ := List.mem_map.mp ha
    obtain ⟨q, hq, rfl⟩ := List.mem_map.mp hb
    rw [notLt, ExceptList.verdict_of_ok (compositeLt_eq h hq hp), Bool.not_not]
  have hruns : (runs.map (fun run => run.map (fun p => (compositeKey keys p, p)))).map
      (List.map Prod.snd) = runs := by
    rw [List.map_map]
    refine (List.map_congr_left (fun run _ => ?_)).trans (List.map_id runs)
    show (run.map _).map Prod.snd = run
    rw [List.map_map]
    exact List.map_id run
  unfold mergeRuns heapqMerge
  rw [hkeyed, ExceptList.bind_ok, hcheck, ExceptList.bind_ok, hmerge, hruns]
  rfl

/-- Stable sorts of stretches of arrivals, merged by row and arrival: the stable sort of all
arrivals. -/
theorem mergeAll_isStableSort {chunks runs merging : List (List (Arrival F))}
    (h : Sortable keys (chunks.flatten.map Prod.snd))
    (hseq : chunks.flatten.Pairwise (fun p q => p.1 < q.1))
    (hruns : List.Forall₂ (IsStableSort (arrivalLe keys)) chunks runs)
    (hmerging : merging.Perm runs) :
    IsStableSort (arrivalLe keys) chunks.flatten
      (mergeAll (lexLe (arrivalLe keys) earlier) merging) := by
  have hpre := h.arrivals_totalPreorder
  have hlex := hpre.lex (earlier_totalPreorder (· ∈ chunks.flatten))
  have hearlier : chunks.flatten.Pairwise (fun p q => earlier p q = true) :=
    hseq.imp (fun hlt => decide_eq_true (Nat.le_of_lt hlt))
  have hmem : ∀ chunk ∈ chunks, ∀ p ∈ chunk, p ∈ chunks.flatten :=
    fun chunk hchunk p hp => List.mem_flatten_of_mem hchunk hp
  have hrun : ∀ run ∈ merging, (∀ p ∈ run, p ∈ chunks.flatten) ∧
      run.Pairwise (fun p q => lexLe (arrivalLe keys) earlier p q = true) := by
    intro run hrun
    obtain ⟨chunk, hchunk, hsort⟩ := Dealing.exists_partner hruns (hmerging.mem_iff.mp hrun)
    refine ⟨fun p hp => hmem chunk hchunk p (hsort.mem_iff.mp hp), ?_⟩
    exact (hsort.tagged (hpre.mono (hmem chunk hchunk))
      (hearlier.sublist (List.sublist_flatten_of_mem hchunk))).sorted
  have hperm : (mergeAll (lexLe (arrivalLe keys) earlier) merging).Perm chunks.flatten :=
    (mergeAll_perm merging).trans (hmerging.flatten.trans (locals_perm hruns))
  have hsorted := sorted_mergeAll hlex (fun run h' => (hrun run h').1) (fun run h' => (hrun run h').2)
  refine IsStableSort.of_tagged hpre (earlier_totalPreorder _) hearlier
    (IsStableSort.of_antisymm hperm hsorted ?_)
  -- arrivals with the same number are the same
  intro p hp q hq hpq hqp
  have hnum : p.1 = q.1 := by
    simp only [lexLe, earlier, Bool.and_eq_true, Bool.or_eq_true, Bool.not_eq_true',
      decide_eq_true_eq] at hpq hqp
    rcases hpq.2 with hne | hle
    · rw [hqp.1] at hne
      cases hne
    · rcases hqp.2 with hne | hle'
      · rw [hpq.1] at hne
        cases hne
      · exact le_antisymm hle hle'
  have hnodup : (chunks.flatten.map Prod.fst).Nodup :=
    List.pairwise_map.mpr (hseq.imp Nat.ne_of_lt)
  exact List.inj_on_of_nodup_map hnodup hp hq hnum

end MergedRuns

section Spilling

variable {keys : List (Expression F × Bool)}

/-- The buffer and the spilled runs hold the arrivals seen so far. -/
structure Buffered (keys : List (Expression F × Bool)) (seen : List (Arrival F))
    (st : SortBuffer F) : Prop where
  next : st.next = seen.length
  chunks : ∃ chunks, seen = chunks.flatten ++ st.buffer ∧
    List.Forall₂ (IsStableSort (arrivalLe keys)) chunks st.runs

variable [PyHost F]

theorem bufferRow_buffered {plan : Sorting F} {seen : List (Arrival F)} {st : SortBuffer F}
    {record : Record F} (hst : Buffered plan.keys seen st)
    (h : Sortable plan.keys ((seen ++ [(st.next, record)]).map Prod.snd)) :
    ∃ st', bufferRow plan st record = .ok st' ∧
      Buffered plan.keys (seen ++ [(st.next, record)]) st' := by
  obtain ⟨chunks, hseen, hruns⟩ := hst.chunks
  have hnext : st.next + 1 = (seen ++ [(st.next, record)]).length := by
    rw [hst.next, List.length_append]
    rfl
  unfold bufferRow
  by_cases hspill : st.bufferBytes + estimateRecordBytes record ≥ plan.spillThresholdBytes
  · have hbuffer : Sortable plan.keys ((st.buffer ++ [(st.next, record)]).map Prod.snd) := by
      refine h.mono (fun r hr => ?_)
      rw [hseen, List.append_assoc, List.map_append]
      exact List.mem_append_right _ hr
    obtain ⟨run, hrun, hsort⟩ := sortRows_isStableSort hbuffer
    refine ⟨⟨st.next + 1, [], 0, st.runs ++ [run]⟩, ?_, hnext,
      chunks ++ [st.buffer ++ [(st.next, record)]], ?_, ?_⟩
    · simp only [if_pos hspill, hrun, ExceptList.bind_ok]
      rfl
    · rw [hseen]
      simp
    · exact List.rel_append hruns (List.Forall₂.cons hsort List.Forall₂.nil)
  · refine ⟨⟨st.next + 1, st.buffer ++ [(st.next, record)],
      st.bufferBytes + estimateRecordBytes record, st.runs⟩, ?_, hnext, chunks, ?_, hruns⟩
    · simp only [if_neg hspill]
      rfl
    · rw [hseen, List.append_assoc]

/-- The buffering loop over all rows. -/
theorem bufferRows_buffered {plan : Sorting F} {rows : List (Record F)} {seen : List (Arrival F)}
    {st : SortBuffer F} (hst : Buffered plan.keys seen st)
    (h : Sortable plan.keys (seen.map Prod.snd ++ rows)) :
    ∃ st', rows.foldlM (bufferRow plan) st = .ok st' ∧
      Buffered plan.keys (seen ++ (rows.zipIdx st.next).map Prod.swap) st' := by
  induction rows generalizing seen st with
  | nil => exact ⟨st, rfl, by simpa using hst⟩
  | cons row rows ih =>
      have hrow : Sortable plan.keys ((seen ++ [(st.next, row)]).map Prod.snd) := by
        refine h.mono (fun r hr => ?_)
        simp only [List.map_append, List.map_cons, List.map_nil, List.mem_append,
          List.mem_cons] at hr ⊢
        tauto
      obtain ⟨st', hst', hbuffered⟩ := bufferRow_buffered hst hrow
      have hnext : st'.next = st.next + 1 := by
        rw [hbuffered.next, hst.next, List.length_append]
        rfl
      obtain ⟨st'', hst'', hfinal⟩ := ih hbuffered (by simpa using h)
      refine ⟨st'', ?_, ?_⟩
      · rw [List.foldlM_cons, hst', ExceptList.bind_ok, hst'']
      · rw [hnext, List.append_assoc] at hfinal
        exact hfinal

omit [PyRuntime F] [PyHost F] in
theorem arrivals_increasing (rows : List (Record F)) :
    (arrivals rows).Pairwise (fun p q => p.1 < q.1) := by
  have hfst : (arrivals rows).map Prod.fst = List.range' 0 rows.length := by
    unfold arrivals
    rw [List.map_map]
    exact List.zipIdx_map_snd 0 rows
  have hlt : ((arrivals rows).map Prod.fst).Pairwise (· < ·) := by
    rw [hfst]
    exact List.pairwise_lt_range'
  exact List.pairwise_map.mp hlt

/-- The eager part and the first iteration of a sorted partition. -/
theorem sortedRuns_isStableSort {plan : Sorting F} {rows : List (Record F)}
    (h : Sortable plan.keys rows) :
    ∃ runs out, sortedRuns plan rows = .ok runs ∧ runs.rows plan.keys = .ok (out.map Prod.snd) ∧
      IsStableSort (arrivalLe plan.keys) (arrivals rows) out := by
  have hstart : Buffered plan.keys [] ⟨0, [], 0, []⟩ := ⟨rfl, [], rfl, List.Forall₂.nil⟩
  obtain ⟨st, hst, hbuffered⟩ := bufferRows_buffered hstart (by simpa using h)
  obtain ⟨chunks, hchunks, hruns⟩ := hbuffered.chunks
  have hall : arrivals rows = (chunks ++ [st.buffer]).flatten := by
    rw [List.flatten_append, List.flatten_singleton]
    exact hchunks
  have hsortable : Sortable plan.keys ((chunks ++ [st.buffer]).flatten.map Prod.snd) := by
    rw [← hall, arrivals_snd]
    exact h
  have hbuffer : Sortable plan.keys (st.buffer.map Prod.snd) := by
    refine hsortable.mono (fun r hr => ?_)
    rw [List.flatten_append, List.flatten_singleton, List.map_append]
    exact List.mem_append_right _ hr
  obtain ⟨finalRun, hfinal, hsort⟩ := sortRows_isStableSort hbuffer
  have hforall := List.rel_append hruns (List.Forall₂.cons hsort List.Forall₂.nil)
  refine ⟨⟨finalRun, st.runs⟩, ?_⟩
  have heager : sortedRuns plan rows = .ok ⟨finalRun, st.runs⟩ := by
    unfold sortedRuns
    rw [hst, ExceptList.bind_ok, hfinal]
    rfl
  by_cases hspilled : st.runs = []
  · have hnone : chunks = [] := by
      rw [hspilled] at hruns
      cases hruns
      rfl
    refine ⟨finalRun, heager, ?_, ?_⟩
    · rw [SortedRuns.rows, if_pos hspilled]
    · rw [hall, hnone]
      simpa using hsort
  · have hmerging : (finalRun :: st.runs).Perm (st.runs ++ [finalRun]) :=
      (List.perm_append_singleton finalRun st.runs).symm
    have hmem : ∀ r ∈ (finalRun :: st.runs).flatten.map Prod.snd,
        r ∈ (chunks ++ [st.buffer]).flatten.map Prod.snd := by
      intro r hr
      exact ((hmerging.flatten.trans (locals_perm hforall)).map Prod.snd).mem_iff.mp hr
    refine ⟨mergeAll (lexLe (arrivalLe plan.keys) earlier) (finalRun :: st.runs), heager, ?_, ?_⟩
    · rw [SortedRuns.rows, if_neg hspilled, mergeRuns_eq (hsortable.mono hmem)]
    · rw [hall]
      exact mergeAll_isStableSort hsortable (hall ▸ arrivals_increasing rows) hforall hmerging

/-- A sorted partition, spilled or not, is the stable sort of its input, and the one that sorting
all rows in memory gives. -/
theorem sortPartition_isStableSort (plan : Sorting F) (partitionId : ℕ) {parent : Partition F}
    {rows : List (Record F)} (hrows : parent.toList = .ok rows) (h : Sortable plan.keys rows) :
    ∃ part out, sortPartition plan partitionId parent = .ok part ∧ part.toList = .ok out ∧
      IsStableSort (rowLe plan.keys) rows out ∧
      (sortRows (arrivals rows) plan.keys).map (List.map Prod.snd) = .ok out := by
  obtain ⟨runs, out, heager, hlazy, hsort⟩ := sortedRuns_isStableSort h
  have harrivals : Sortable plan.keys ((arrivals rows).map Prod.snd) := by
    rw [arrivals_snd]
    exact h
  obtain ⟨inMemory, hmemory, hsort'⟩ := sortRows_isStableSort harrivals
  have hpart : ∃ part, sortPartition plan partitionId parent = .ok part ∧
      part.toList = runs.rows plan.keys := by
    unfold sortPartition
    rw [hrows, ExceptList.bind_ok, heager]
    exact ⟨_, rfl, rfl⟩
  obtain ⟨part, hpart, hlist⟩ := hpart
  refine ⟨part, out.map Prod.snd, hpart, hlist.trans hlazy, ?_, ?_⟩
  · have hmap : IsStableSort (rowLe plan.keys) ((arrivals rows).map Prod.snd)
        (out.map Prod.snd) := IsStableSort.map hsort
    rwa [arrivals_snd] at hmap
  · rw [hmemory, hsort'.unique harrivals.arrivals_totalPreorder hsort]
    rfl

end Spilling

section Examples

/-- Ties in one column, a null, and a row that repeats. -/
def tiedRows : List (Record ℚ) :=
  (intRows ["a", "b"] [[[.int 2, .int 1], [.int 1, .none], [.int 2, .int 3], [.int 1, .int 7],
    [.int 2, .int 1]]]).flatten

/-- Every row is spilled, and the columns go in different directions. -/
theorem sortPartition_isStableSort_ties : ∃ part out,
    sortPartition ⟨[(.column "a", true), (.column "b", false)], abSchema, 0⟩ 0
      (rowsPartition 0 abSchema tiedRows) = .ok part ∧ part.toList = .ok out ∧
    IsStableSort (rowLe [(.column "a", true), (.column "b", false)]) tiedRows out ∧
    (sortRows (arrivals tiedRows) [(.column "a", true), (.column "b", false)]).map
      (List.map Prod.snd) = .ok out := by
  have hparent : (rowsPartition 0 abSchema tiedRows).toList = .ok tiedRows := rfl
  refine sortPartition_isStableSort ⟨[(.column "a", true), (.column "b", false)], abSchema, 0⟩ 0
    hparent ?_
  intro k hk
  refine SortableBy.of_numbers (fun r hr => ?_)
  simp only [List.mem_cons, List.not_mem_nil, or_false] at hk
  simp only [tiedRows, intRows, List.map_cons, List.map_nil, List.flatten_cons, List.flatten_nil,
    List.append_nil, List.mem_cons, List.not_mem_nil, or_false] at hr
  rcases hk with rfl | rfl <;> rcases hr with rfl | rfl | rfl | rfl | rfl
  all_goals first
    | exact ⟨_, some _, rfl, rfl⟩
    | exact ⟨_, none, rfl, rfl⟩

end Examples

end MiniSpark
