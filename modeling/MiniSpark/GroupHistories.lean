import MiniSpark.AggregateAccumulation
import MiniSpark.Exchange
import MiniSpark.GroupStages

/-!
# Groups of any rows

Whatever rows come in, a grouping that does not raise accounts for all of them: every group
stands for a batch of rows with its key, and the batches of all groups make up the input. Keys
need not be of one kind, aggregates need not be numeric, and a step that raises is no step.
-/
namespace MiniSpark

open Summaries

variable {F : Type} [PyRuntime F] {α : Type} {spec : HashAggregate F}
  {aggs : List (AggregateFunction F)} {R : Record F → List α → Prop} {P : Group F → List α → Prop}

/-- What rows and groups stand for, kept by every step that succeeds. -/
structure Carries (spec : HashAggregate F) (aggs : List (AggregateFunction F))
    (R : Record F → List α → Prop) (P : Group F → List α → Prop) : Prop where
  fresh : ∀ {r ys k v}, R r ys → tupleKey spec.groupBy r = .ok k →
    nextState spec.isPartial aggs none r = .ok v → P (k, v) ys
  next : ∀ {r ys k k' s b v}, R r ys → tupleKey spec.groupBy r = .ok k → (k' == k) = true →
    P (k', s) b → nextState spec.isPartial aggs (some s) r = .ok v → P (k', v) (b ++ ys)
  merge : ∀ {k k' a b c xs ys}, P (k, a) xs → P (k', b) ys → (k == k') = true →
    mergeStates aggs a b = .ok c → P (k, c) (xs ++ ys)

section Loop

variable [PyHost F]

/-- The variables of the loop stand for the rows read so far. -/
structure StandsFor (P : Group F → List α → Prop) (acc : Accumulation F) (xs : List α) : Prop where
  buckets : acc.spillPaths.length = aggregateSpillBuckets
  unspilled : acc.spilled = false → acc.spillPaths.flatten.flatten = []
  summarise : Summarise P (acc.groups.items ++ acc.spillPaths.flatten.flatten) xs

omit [PyHost F] in
lemma standsFor_start : StandsFor P (Accumulation.start F) [] where
  buckets := List.length_replicate
  unspilled _ := by simp [Accumulation.start]
  summarise := by simpa [Accumulation.start] using Summarise.nil

/-- One row more, spilling or not. -/
lemma StandsFor.step (hc : Carries spec aggs R P) {acc acc' : Accumulation F} {r : Record F}
    {xs ys : List α} (hr : R r ys) (h : StandsFor P acc xs)
    (hstep : accumulate spec aggs acc r = .ok acc') : StandsFor P acc' (xs ++ ys) := by
  obtain ⟨k, hk, hstep⟩ := ExceptList.bind_eq_ok.mp hstep
  obtain ⟨v, hv, hstep⟩ := ExceptList.bind_eq_ok.mp hstep
  obtain ⟨xs₁, xs₂, hgroups, hspilled, hxs⟩ := h.summarise.of_append
  have hset : Summarise P (acc.groups.set k v).items (xs₁ ++ ys) := by
    refine hgroups.set_entry (fun hnone => ?_) (fun k' s b _ hk' hget hb => ?_)
    · rw [hnone] at hv
      exact hc.fresh hr hk hv
    · rw [hget] at hv
      exact hc.next hr hk hk' hb hv
  have hall : Summarise P ((acc.groups.set k v).items ++ acc.spillPaths.flatten.flatten)
      (xs ++ ys) := by
    refine (hset.append hspilled).perm ?_
    rw [List.append_assoc]
    refine (List.perm_append_comm.append_left xs₁).trans ?_
    rw [← List.append_assoc]
    exact hxs.append_right ys
  dsimp only at hstep
  split at hstep
  · obtain ⟨paths, hpaths, hstep⟩ := ExceptList.bind_eq_ok.mp hstep
    cases hstep
    rw [eq_of_spillGroups hpaths]
    refine ⟨by rw [spilledPaths, List.length_mapIdx, h.buckets], ?_, ?_⟩
    · intro hfalse
      cases hfalse
    · exact hall.perm_items (spilledPaths_perm h.buckets)
  · cases hstep
    exact ⟨h.buckets, h.unspilled, hall⟩

/-- The whole loop. -/
lemma StandsFor.run (hc : Carries spec aggs R P) {rows : List (Record F)} {batches : List (List α)}
    {acc acc' : Accumulation F} {xs : List α} (hrows : List.Forall₂ R rows batches)
    (h : StandsFor P acc xs) (hrun : rows.foldlM (accumulate spec aggs) acc = .ok acc') :
    StandsFor P acc' (xs ++ batches.flatten) := by
  induction hrows generalizing acc xs with
  | nil =>
      cases hrun
      rwa [List.flatten_nil, List.append_nil]
  | cons hr _ ih =>
      obtain ⟨acc₁, hstep, hrest⟩ := ExceptList.bind_eq_ok.mp hrun
      rw [List.flatten_cons, ← List.append_assoc]
      exact ih (h.step hc hr hstep) hrest

end Loop

section Merge

/-- One item of a spill file more. -/
lemma mergeSpilled_summarise (hc : Carries spec aggs R P) {merged merged' : GroupTable F}
    {item : Group F} {xs ys : List α} (h : Summarise P merged.items xs) (hitem : P item ys)
    (hstep : mergeSpilled aggs merged item = .ok merged') :
    Summarise P merged'.items (xs ++ ys) := by
  unfold mergeSpilled at hstep
  split at hstep
  · next hnone =>
      cases hstep
      refine h.set_entry (fun _ => hitem) (fun k' s b _ _ hget _ => ?_)
      rw [hnone] at hget
      cases hget
  · next existing hexisting =>
      obtain ⟨state, hstate, hstep⟩ := ExceptList.bind_eq_ok.mp hstep
      cases hstep
      refine h.set_entry (fun hnone => ?_) (fun k' s b _ hk' hget hb => ?_)
      · rw [hexisting] at hnone
        cases hnone
      · cases hexisting.symm.trans hget
        exact hc.merge hb hitem hk' hstate

lemma mergeSpilled_items (hc : Carries spec aggs R P) {items : SpillItems F}
    {merged merged' : GroupTable F} {xs ys : List α} (h : Summarise P merged.items xs)
    (hitems : Summarise P items ys)
    (hrun : items.foldlM (mergeSpilled aggs) merged = .ok merged') :
    Summarise P merged'.items (xs ++ ys) := by
  induction items generalizing merged xs ys with
  | nil =>
      cases hrun
      obtain ⟨_, hb, hy⟩ := hitems
      cases hb
      exact h.perm (by simpa using hy.append_left xs)
  | cons item items ih =>
      obtain ⟨merged₁, hstep, hrest⟩ := ExceptList.bind_eq_ok.mp hrun
      obtain ⟨ys₁, ys₂, hitem, hys₂, hy⟩ := hitems.of_cons
      refine (ih (mergeSpilled_summarise hc h hitem hstep) hys₂ hrest).perm ?_
      rw [List.append_assoc]
      exact hy.append_left xs

/-- The row of a group that stands for a batch. -/
def RowOfGroup (spec : HashAggregate F) (aggs : List (AggregateFunction F))
    (P : Group F → List α → Prop) (row : Record F) (b : List α) : Prop :=
  ∃ k states, P (k, states) b ∧ groupRow spec aggs k states = .ok row

lemma groupRows_summarise {items : List (Group F)} {rows : List (Record F)} {xs : List α}
    (h : Summarise P items xs)
    (hrows : items.mapM (fun p => groupRow spec aggs p.1 p.2) = .ok rows) :
    Summarise (RowOfGroup spec aggs P) rows xs :=
  h.rel (ExceptList.mapM_eq_ok.mp hrows) (fun i _ _ hrow hb => ⟨i.1, i.2, hb, hrow⟩)

/-- One bucket: what is left in memory, and its spill files. -/
lemma bucketRows_summarise (hc : Carries spec aggs R P) {groups : GroupTable F}
    {files : List (SpillItems F)} {bucket : ℕ} {rows : List (Record F)} {xs : List α}
    (h : Summarise P (bucketItems groups bucket ++ files.flatten) xs)
    (hrows : bucketRows spec aggs groups bucket files = .ok rows) :
    Summarise (RowOfGroup spec aggs P) rows xs := by
  obtain ⟨merged, hrun, hrows⟩ := ExceptList.bind_eq_ok.mp hrows
  obtain ⟨xs₁, xs₂, hremainder, hfiles, hx⟩ := h.of_append
  rw [← OrderedDict.items_ofList (bucketItems groups bucket)
    (groups.distinct.sublist (List.filter_sublist.map _))] at hremainder
  exact groupRows_summarise ((mergeSpilled_items hc hremainder hfiles hrun).perm hx) hrows

/-- After the loop the rows of the groups stand for the rows read. -/
theorem StandsFor.rows (hc : Carries spec aggs R P) {acc : Accumulation F} {xs : List α}
    {rows : List (Record F)} (h : StandsFor P acc xs)
    (hrows : accumulatedRows spec aggs acc = .ok rows) :
    Summarise (RowOfGroup spec aggs P) rows xs := by
  unfold accumulatedRows at hrows
  split at hrows
  · obtain ⟨_, -, hrows⟩ := ExceptList.bind_eq_ok.mp hrows
    obtain ⟨parts, hparts, hrows⟩ := ExceptList.bind_eq_ok.mp hrows
    cases hrows
    obtain ⟨batches, hbatches, hx⟩ :=
      (h.summarise.perm_items (bucketed_perm h.buckets)).of_flatten
    rw [List.forall₂_map_left_iff] at hbatches
    have hall : List.Forall₂ (Summarise (RowOfGroup spec aggs P)) parts batches := by
      refine (Dealing.forall₂_through (ExceptList.mapM_eq_ok.mp hparts).flip hbatches.flip).imp ?_
      rintro rows batch ⟨p, hrows, hbatch⟩
      exact bucketRows_summarise hc hbatch hrows
    exact (Summarise.flatten hall).perm hx
  · next hspilled =>
      have hsum := h.summarise
      rw [h.unspilled (Bool.eq_false_iff.mpr hspilled), List.append_nil] at hsum
      exact groupRows_summarise hsum hrows

end Merge

section Partitions

variable [PyHost F]

/-- The rows that the grouping of a partition yields account for its input. -/
theorem hashAggregatePartition_summarise (hc : Carries spec aggs R P) {pid : ℕ}
    {parent part : Partition F} {rows out : List (Record F)} {batches : List (List α)}
    (haggs : spec.aggregates.mapM unwrapAggregate = .ok aggs) (hparent : parent.toList = .ok rows)
    (hrows : List.Forall₂ R rows batches)
    (hpart : hashAggregatePartition spec pid parent = .ok part) (hout : part.toList = .ok out) :
    Summarise (RowOfGroup spec aggs P) out batches.flatten := by
  rw [hashAggregatePartition, haggs, ExceptList.bind_ok, hparent, ExceptList.bind_ok] at hpart
  obtain ⟨acc, hacc, hpart⟩ := ExceptList.bind_eq_ok.mp hpart
  cases hpart
  have hstands : StandsFor P acc ([] ++ batches.flatten) := standsFor_start.run hc hrows hacc
  refine hstands.rows hc ?_
  simpa [Partition.toList] using hout

end Partitions

section Stages

variable [PyHost F] {child : PhysicalPlan F} {parts : List (List (Record F))}

/-- The grouping of every partition of a plan. -/
theorem hashAggregateExec_summarise (hc : Carries spec aggs R P) {outs : List (List (Record F))}
    {xs : List α} (haggs : spec.aggregates.mapM unwrapAggregate = .ok aggs)
    (hd : denotedRows child = .ok parts) (hrows : Summarise R parts.flatten xs)
    (houts : denotedRows (.hashAggregateExec child spec) = .ok outs) :
    Summarise (RowOfGroup spec aggs P) outs.flatten xs := by
  obtain ⟨d, hden, hd⟩ := ExceptList.bind_eq_ok.mp hd
  obtain ⟨d', hden', houts⟩ := ExceptList.bind_eq_ok.mp houts
  rw [denote, hden, ExceptList.bind_ok] at hden'
  cases hden'
  obtain ⟨batches, hbatches, hx⟩ := hrows.of_flatten
  have hread := Dealing.forall₂_through (ExceptList.mapM_eq_ok.mp hd) hbatches.flip
  have hall : List.Forall₂ (Summarise (RowOfGroup spec aggs P)) outs batches := by
    refine (Dealing.forall₂_through (ExceptList.mapM_eq_ok.mp houts).flip hread.flip).imp ?_
    rintro out batch ⟨pid, hgroup, rows, hrows, bs, hbs, hbatch⟩
    obtain ⟨parent, hparent, hlist⟩ := ExceptList.bind_eq_ok.mp hrows
    dsimp only at hgroup
    rw [hparent, ExceptList.bind_ok] at hgroup
    obtain ⟨part, hpart, hout⟩ := ExceptList.bind_eq_ok.mp hgroup
    exact (hashAggregatePartition_summarise hc haggs hlist hbs hpart hout).perm hbatch
  exact (Summarise.flatten hall).perm hx

omit [PyHost F] in
/-- What a partition writes to an exchange by hash: its rows, each with a target. -/
lemma exchangeRows_eq_ok {n : ℕ} {exprs : List (Expression F)} {part : Partition F}
    {tagged : List (ℕ × Record F)} (h : exchangeRows n exprs none part = .ok tagged) :
    part.toList = .ok (tagged.map Prod.snd) ∧ ∀ p ∈ tagged, p.1 < n := by
  obtain ⟨rows, hrows, h⟩ := ExceptList.bind_eq_ok.mp h
  obtain ⟨target, htarget, h⟩ := ExceptList.bind_eq_ok.mp h
  obtain ⟨partitioner, hmake, hpure⟩ := ExceptList.bind_eq_ok.mp htarget
  obtain rfl := HashPartitioner.make_eq_ok.mp hmake
  cases hpure
  have htagged : List.Forall₂ (fun r p => r = p.2 ∧ p.1 < partitioner.numPartitions)
      rows tagged := by
    refine (ExceptList.mapM_eq_ok.mp h).imp (fun r p hp => ?_)
    obtain ⟨t, ht, hp⟩ := ExceptList.bind_eq_ok.mp hp
    obtain ⟨key, -, ht⟩ := ExceptList.bind_eq_ok.mp ht
    cases hp
    rw [(HashPartitioner.partitionFor_eq_ok.mp ht).2]
    exact ⟨rfl, partitioner.textTarget_lt key⟩
  refine ⟨?_, fun p hp => ?_⟩
  · have heq : List.Forall₂ Eq rows (tagged.map Prod.snd) :=
      List.forall₂_map_right_iff.mpr (htagged.imp fun _ _ hp => hp.1)
    rw [List.forall₂_eq_eq_eq] at heq
    rw [hrows, heq]
  · obtain ⟨r, -, -, hlt⟩ := Dealing.exists_partner htagged hp
    exact hlt

omit [PyRuntime F] [PyHost F] in
lemma flatten_tagged {n : ℕ} {written : Written F} (h : List.Forall₂ (fun tagged rows =>
    rows = tagged.map Prod.snd ∧ ∀ p ∈ tagged, p.1 < n) written parts) :
    parts.flatten = written.flatten.map Prod.snd ∧ ∀ p ∈ written.flatten, p.1 < n := by
  induction h with
  | nil => exact ⟨rfl, List.forall_mem_nil _⟩
  | cons hhead _ ih =>
      rw [List.flatten_cons, List.flatten_cons, List.map_append, ← hhead.1, ih.1]
      exact ⟨rfl, List.forall_mem_append.mpr ⟨hhead.2, ih.2⟩⟩

/-- An exchange by hash deals the rows of its child. -/
theorem exchangeExec_perm {n : ℕ} {exprs : List (Expression F)} {outs : List (List (Record F))}
    (hd : denotedRows child = .ok parts)
    (houts : denotedRows (.exchangeExec child n exprs false none) = .ok outs) :
    outs.flatten.Perm parts.flatten := by
  obtain ⟨d, hden, hd⟩ := ExceptList.bind_eq_ok.mp hd
  obtain ⟨d', hden', houts⟩ := ExceptList.bind_eq_ok.mp houts
  rw [denote, hden, ExceptList.bind_ok] at hden'
  obtain ⟨written, hwritten, hden'⟩ := ExceptList.bind_eq_ok.mp hden'
  cases hden'
  have hparts : List.Forall₂ (fun tagged rows => rows = tagged.map Prod.snd ∧
      ∀ p ∈ tagged, p.1 < n) written parts := by
    refine (Dealing.forall₂_through (ExceptList.mapM_eq_ok.mp hwritten).flip
      (ExceptList.mapM_eq_ok.mp hd).flip).imp ?_
    rintro tagged rows ⟨pid, htagged, hrows⟩
    obtain ⟨part, hpart, htagged⟩ := ExceptList.bind_eq_ok.mp htagged
    rw [hpart, ExceptList.bind_ok] at hrows
    obtain ⟨hlist, hlt⟩ := exchangeRows_eq_ok htagged
    exact ⟨Except.ok.inj (hrows.symm.trans hlist), hlt⟩
  obtain ⟨hflat, hlt⟩ := flatten_tagged hparts
  have hlists : outs = (List.range n).map (readTarget written) :=
    Except.ok.inj (houts.symm.trans (ExceptList.mapM_ok_of_forall (fun _ _ => rfl)))
  rw [hlists, hflat, ← List.flatMap_def]
  have hdeal := (Dealing.deal_perm hlt).map Prod.snd
  rw [List.map_flatMap] at hdeal
  exact hdeal

end Stages

end MiniSpark
