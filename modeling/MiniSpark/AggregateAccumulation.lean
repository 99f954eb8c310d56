import MiniSpark.Operators
import MiniSpark.Summaries

/-!
# Accumulating groups

Whatever the threshold, the groups in memory together with the items in spill
files summarise the rows read so far, and every spilled item is in the files of
its bucket. Merging the files bucket by bucket leaves one item for each key.
-/
namespace MiniSpark

open Summaries

variable {F : Type} [PyRuntime F] [PyHost F]

/-- A group: a key and its states. -/
abbrev Group (F : Type) := List (Value F) × List (Value F)

variable {α : Type} {spec : HashAggregate F} {aggs : List (AggregateFunction F)}
  {P : Group F → List α → Prop} {S : List (Value F) → Prop}

/-- A row adds the batch `ys` to the group of key `k`. -/
structure Absorbs (spec : HashAggregate F) (aggs : List (AggregateFunction F))
    (P : Group F → List α → Prop) (r : Record F) (k : List (Value F)) (ys : List α) : Prop where
  key : tupleKey spec.groupBy r = .ok k
  fresh : ∃ v, nextState spec.isPartial aggs none r = .ok v ∧ P (k, v) ys
  again : ∀ s b, P (k, s) b →
    ∃ v, nextState spec.isPartial aggs (some s) r = .ok v ∧ P (k, v) (b ++ ys)

/-- Two groups of one key can be merged. -/
def Mergeable (aggs : List (AggregateFunction F)) (P : Group F → List α → Prop) : Prop :=
  ∀ k a b xs ys, P (k, a) xs → P (k, b) ys →
    ∃ c, mergeStates aggs a b = .ok c ∧ P (k, c) (xs ++ ys)

/-- What holds of the variables of the accumulation loop after the rows summed up by `xs`. -/
structure Accumulated (P : Group F → List α → Prop) (S : List (Value F) → Prop)
    (acc : Accumulation F) (xs : List α) : Prop where
  keys : acc.groups.KeysIn S
  buckets : acc.spillPaths.length = aggregateSpillBuckets
  placed : ∀ p ∈ acc.spillPaths.zipIdx, ∀ item ∈ p.1.flatten,
    S item.1 ∧ spillPartitioner.textTarget item.1 = p.2
  unspilled : acc.spilled = false → acc.spillPaths.flatten.flatten = []
  summarise : Summarise P (acc.groups.items ++ acc.spillPaths.flatten.flatten) xs

/-- Every key has a text, so it can be hashed when it is spilled. -/
def KeysPrint (S : List (Value F) → Prop) : Prop := ∀ k, S k → k.all Value.prints = true

section Loop

omit [PyHost F] in
/-- A table whose keys print can be dealt to buckets. -/
lemma bucketNumbers_ok {groups : GroupTable F} (hp : KeysPrint S) (hg : groups.KeysIn S) :
    bucketNumbers groups = .ok (groups.items.map (fun p => spillPartitioner.textTarget p.1)) :=
  ExceptList.mapM_ok_of_forall (fun item hitem =>
    HashPartitioner.partitionFor_of_prints (hp _ (hg item.1 (List.mem_map_of_mem hitem))))

omit [PyHost F] in
lemma accumulated_start : Accumulated P S (Accumulation.start F) [] where
  keys := OrderedDict.KeysIn.empty
  buckets := List.length_replicate
  placed := by
    intro p hp item hitem
    have hnil : p.1 = [] := List.eq_of_mem_replicate (List.fst_mem_of_mem_zipIdx hp)
    rw [hnil] at hitem
    cases hitem
  unspilled _ := by simp [Accumulation.start]
  summarise := by simpa [Accumulation.start] using Summarise.nil

omit [PyHost F] in
/-- The groups in memory, dealt to their buckets, next to the spilled items of the bucket. -/
lemma bucketed_perm {groups : GroupTable F} {paths : List (List (SpillItems F))}
    (hlen : paths.length = aggregateSpillBuckets) :
    (paths.zipIdx.flatMap (fun p => bucketItems groups p.2 ++ p.1.flatten)).Perm
      (groups.items ++ paths.flatten.flatten) := by
  have hidx : paths.zipIdx.flatMap (fun p => bucketItems groups p.2) =
      (List.range aggregateSpillBuckets).flatMap (fun b => bucketItems groups b) := by
    rw [← hlen, List.range_eq_range', ← List.zipIdx_map_snd 0 paths, List.flatMap_map]
  have hdeal : (paths.zipIdx.flatMap (fun p => bucketItems groups p.2)).Perm groups.items := by
    rw [hidx]
    exact Dealing.deal_perm (fun item _ => spillPartitioner.textTarget_lt item.1)
  have hfiles : paths.zipIdx.flatMap (fun p => p.1.flatten) = paths.flatten.flatten := by
    conv_rhs => rw [← List.zipIdx_map_fst 0 paths]
    rw [List.flatten_flatten, List.map_map, List.flatMap_def]
    rfl
  refine (List.flatMap_append_perm _ _ _).symm.trans ?_
  rw [hfiles]
  exact hdeal.append_right _

omit [PyHost F] in
/-- Spilling moves every group to a file of its bucket. -/
lemma spilledPaths_perm {groups : GroupTable F} {paths : List (List (SpillItems F))}
    (hlen : paths.length = aggregateSpillBuckets) :
    (spilledPaths groups paths).flatten.flatten.Perm (groups.items ++ paths.flatten.flatten) := by
  have hbucket : ∀ p ∈ paths.zipIdx, ((if bucketItems groups p.2 = [] then p.1
      else p.1 ++ [bucketItems groups p.2]).flatten).Perm
      (bucketItems groups p.2 ++ p.1.flatten) := by
    intro p _
    split
    · next hnil => rw [hnil, List.nil_append]
    · rw [List.flatten_append, List.flatten_singleton]
      exact List.perm_append_comm
  rw [spilledPaths, List.mapIdx_eq_zipIdx_map, List.flatten_flatten, List.map_map,
    ← List.flatMap_def]
  exact (List.Perm.flatMap_left _ hbucket).trans (bucketed_perm hlen)

omit [PyHost F] in
/-- Spilled items are in the files of their buckets. -/
lemma spilledPaths_placed {groups : GroupTable F} {paths : List (List (SpillItems F))}
    (hg : groups.KeysIn S)
    (h : ∀ p ∈ paths.zipIdx, ∀ item ∈ p.1.flatten,
      S item.1 ∧ spillPartitioner.textTarget item.1 = p.2) :
    ∀ p ∈ (spilledPaths groups paths).zipIdx, ∀ item ∈ p.1.flatten,
      S item.1 ∧ spillPartitioner.textTarget item.1 = p.2 := by
  rintro ⟨files', b⟩ hp item hitem
  have hget : (spilledPaths groups paths)[b]? = some files' := List.mem_zipIdx_iff_getElem?.mp hp
  rw [spilledPaths, List.getElem?_mapIdx] at hget
  obtain ⟨files, hfiles, rfl⟩ := Option.map_eq_some_iff.mp hget
  have hold : item ∈ files.flatten → S item.1 ∧ spillPartitioner.textTarget item.1 = b :=
    h (files, b) (List.mem_zipIdx_iff_getElem?.mpr hfiles) item
  simp only at hitem
  split at hitem
  · exact hold hitem
  · rw [List.flatten_append, List.flatten_singleton, List.mem_append] at hitem
    cases hitem with
    | inl hmem => exact hold hmem
    | inr hmem =>
        obtain ⟨hmem, hb⟩ := List.mem_filter.mp hmem
        exact ⟨hg item.1 (List.mem_map_of_mem hmem), of_decide_eq_true hb⟩

omit [PyHost F] in
/-- The next state of a row's group absorbs the row's batch. -/
lemma nextState_summarise {groups : GroupTable F} {r : Record F} {k : List (Value F)} {xs ys : List α}
    (hS : OrderedDict.LawfulOn S) (hg : groups.KeysIn S) (hk : S k) (hr : Absorbs spec aggs P r k ys)
    (h : Summarise P groups.items xs) :
    ∃ v, nextState spec.isPartial aggs (groups.get? k) r = .ok v ∧
      Summarise P (groups.set k v).items (xs ++ ys) := by
  cases hget : groups.get? k with
  | none =>
      obtain ⟨v, hv, hP⟩ := hr.fresh
      exact ⟨v, hv, h.set hS hg hk (fun _ => hP) (fun s b hs => by simp [hget] at hs)⟩
  | some s =>
      obtain ⟨b, hb⟩ := h.of_get? hS hg hk hget
      obtain ⟨v, hv, -⟩ := hr.again s b hb
      refine ⟨v, hv, h.set hS hg hk (fun hnone => by simp [hget] at hnone) (fun s' b' hs' hb' => ?_)⟩
      obtain rfl : s = s' := Option.some.inj (hget.symm.trans hs')
      obtain ⟨v', hv', hP⟩ := hr.again s b' hb'
      obtain rfl : v = v' := Except.ok.inj (hv.symm.trans hv')
      exact hP

/-- One iteration of the loop keeps the invariant, spilling or not. -/
theorem accumulate_step {acc : Accumulation F} {r : Record F} {k : List (Value F)} {xs ys : List α}
    (hS : OrderedDict.LawfulOn S) (hp : KeysPrint S) (hk : S k) (hr : Absorbs spec aggs P r k ys)
    (h : Accumulated P S acc xs) :
    ∃ acc', accumulate spec aggs acc r = .ok acc' ∧ Accumulated P S acc' (xs ++ ys) := by
  obtain ⟨xs₁, xs₂, hgroups, hspilled, hxs⟩ := h.summarise.of_append
  obtain ⟨v, hv, hset⟩ := nextState_summarise hS h.keys hk hr hgroups
  have hkeys : (acc.groups.set k v).KeysIn S := h.keys.set hk v
  have hall : Summarise P ((acc.groups.set k v).items ++ acc.spillPaths.flatten.flatten)
      (xs ++ ys) := by
    refine (hset.append hspilled).perm ?_
    rw [List.append_assoc]
    refine (List.perm_append_comm.append_left xs₁).trans ?_
    rw [← List.append_assoc]
    exact hxs.append_right ys
  obtain ⟨bytes, hbytes⟩ : ∃ bytes, bytes = acc.groupsBytes -
      ((acc.groups.get? k).map (estimateGroupBytes k)).getD 0 + estimateGroupBytes k v := ⟨_, rfl⟩
  have hstep : accumulate spec aggs acc r = if bytes ≥ spec.spillThresholdBytes then
      .ok ⟨OrderedDict.empty, 0, true, spilledPaths (acc.groups.set k v) acc.spillPaths⟩
      else .ok ⟨acc.groups.set k v, bytes, acc.spilled, acc.spillPaths⟩ := by
    simp only [accumulate, hr.key, hv, spillGroups, bucketNumbers_ok hp hkeys, ExceptList.bind_ok,
      ExceptList.pure_eq_ok, hbytes]
  rw [hstep]
  by_cases hspill : bytes ≥ spec.spillThresholdBytes
  · rw [if_pos hspill]
    exact ⟨_, rfl, {
      keys := OrderedDict.KeysIn.empty
      buckets := by rw [spilledPaths, List.length_mapIdx, h.buckets]
      placed := spilledPaths_placed hkeys h.placed
      unspilled := by
        intro hfalse
        cases hfalse
      summarise := hall.perm_items (spilledPaths_perm h.buckets) }⟩
  · rw [if_neg hspill]
    exact ⟨_, rfl, hkeys, h.buckets, h.placed, h.unspilled, hall⟩

/-- The whole loop: every row adds its batch. -/
theorem accumulate_run {rows : List (Record F)} {batches : List (List α)} {acc : Accumulation F}
    {xs : List α} (hS : OrderedDict.LawfulOn S) (hp : KeysPrint S)
    (hrows : List.Forall₂ (fun r ys => ∃ k, S k ∧ Absorbs spec aggs P r k ys) rows batches)
    (h : Accumulated P S acc xs) :
    ∃ acc', rows.foldlM (accumulate spec aggs) acc = .ok acc' ∧
      Accumulated P S acc' (xs ++ batches.flatten) := by
  induction hrows generalizing acc xs with
  | nil => exact ⟨acc, rfl, by simpa using h⟩
  | @cons r ys rows batches hr _ ih =>
      obtain ⟨k, hk, hr⟩ := hr
      obtain ⟨acc₁, hstep, h₁⟩ := accumulate_step hS hp hk hr h
      obtain ⟨acc', hrest, h'⟩ := ih h₁
      refine ⟨acc', ?_, ?_⟩
      · rw [List.foldlM_cons, hstep]
        exact hrest
      · rw [List.flatten_cons, ← List.append_assoc]
        exact h'

end Loop

section Merge

omit [PyHost F] in
/-- Folding one spilled item into the table of its bucket. -/
lemma mergeSpilled_step {merged : GroupTable F} {item : Group F} {xs ys : List α}
    (hS : OrderedDict.LawfulOn S) (hm : Mergeable aggs P) (hg : merged.KeysIn S) (hk : S item.1)
    (h : Summarise P merged.items xs) (hitem : P item ys) :
    ∃ merged', mergeSpilled aggs merged item = .ok merged' ∧ merged'.KeysIn S ∧
      Summarise P merged'.items (xs ++ ys) := by
  obtain ⟨k, s⟩ := item
  cases hget : merged.get? k with
  | none =>
      refine ⟨merged.set k s, by simp only [mergeSpilled, hget], hg.set hk s, ?_⟩
      exact h.set hS hg hk (fun _ => hitem) (fun s' b hs => by simp [hget] at hs)
  | some e =>
      obtain ⟨b, hb⟩ := h.of_get? hS hg hk hget
      obtain ⟨c, hc, -⟩ := hm k e s b ys hb hitem
      refine ⟨merged.set k c, ?_, hg.set hk c, ?_⟩
      · simp only [mergeSpilled, hget, hc, ExceptList.bind_ok, ExceptList.pure_eq_ok]
      · refine h.set hS hg hk (fun hnone => by simp [hget] at hnone) (fun e' b' he' hb' => ?_)
        obtain rfl : e = e' := Option.some.inj (hget.symm.trans he')
        obtain ⟨c', hc', hP⟩ := hm k e s b' ys hb' hitem
        obtain rfl : c = c' := Except.ok.inj (hc.symm.trans hc')
        exact hP

omit [PyHost F] in
lemma mergeSpilled_run {items : SpillItems F} {merged : GroupTable F} {xs ys : List α}
    (hS : OrderedDict.LawfulOn S) (hm : Mergeable aggs P) (hg : merged.KeysIn S)
    (hk : ∀ item ∈ items, S item.1) (h : Summarise P merged.items xs)
    (hitems : Summarise P items ys) :
    ∃ merged', items.foldlM (mergeSpilled aggs) merged = .ok merged' ∧ merged'.KeysIn S ∧
      Summarise P merged'.items (xs ++ ys) := by
  induction items generalizing merged xs ys with
  | nil =>
      obtain ⟨_, hb, hy⟩ := hitems
      cases hb
      exact ⟨merged, rfl, hg, h.perm (by simpa using hy.append_left xs)⟩
  | cons item items ih =>
      obtain ⟨ys₁, ys₂, hitem, hrest, hy⟩ := hitems.of_cons
      obtain ⟨hk₁, hk₂⟩ := List.forall_mem_cons.mp hk
      obtain ⟨merged₁, hstep, hg₁, h₁⟩ := mergeSpilled_step hS hm hg hk₁ h hitem
      obtain ⟨merged', hrun, hg', h'⟩ := ih hg₁ hk₂ h₁ hrest
      refine ⟨merged', ?_, hg', h'.perm ?_⟩
      · rw [List.foldlM_cons, hstep]
        exact hrun
      · rw [List.append_assoc]
        exact hy.append_left xs

/-- What a group-by partition yields: one item for each key, and the row of each. -/
structure YieldsGroups (spec : HashAggregate F) (aggs : List (AggregateFunction F))
    (P : Group F → List α → Prop) (S : List (Value F) → Prop) (items : List (Group F))
    (rows : List (Record F)) (xs : List α) : Prop where
  nodup : (items.map Prod.fst).Nodup
  keys : ∀ item ∈ items, S item.1
  summarise : Summarise P items xs
  rows : List.Forall₂ (fun item r => groupRow spec aggs item.1 item.2 = .ok r) items rows

/-- Every group has a row. -/
def HasRows (spec : HashAggregate F) (aggs : List (AggregateFunction F))
    (P : Group F → List α → Prop) : Prop :=
  ∀ item b, P item b → ∃ r, groupRow spec aggs item.1 item.2 = .ok r

omit [PyHost F] in
lemma tableRows_yield {table : GroupTable F} {xs : List α} (hS : OrderedDict.LawfulOn S)
    (hrows : HasRows spec aggs P) (hg : table.KeysIn S) (h : Summarise P table.items xs) :
    ∃ rows, table.items.mapM (fun p => groupRow spec aggs p.1 p.2) = .ok rows ∧
      YieldsGroups spec aggs P S table.items rows xs := by
  have hall : ∀ item ∈ table.items, ∃ r, groupRow spec aggs item.1 item.2 = .ok r := by
    intro item hitem
    obtain ⟨b, hb, -⟩ := h.exists_batch hitem
    exact hrows item b hb
  obtain ⟨rows, hmap, -⟩ := ExceptList.mapM_ok_of_exists (S := fun _ _ => True)
    (fun item hitem => (hall item hitem).imp fun _ hr => ⟨hr, trivial⟩)
  exact ⟨rows, hmap, OrderedDict.keys_nodup hS table hg,
    fun item hitem => hg item.1 (List.mem_map_of_mem hitem), h, ExceptList.mapM_eq_ok.mp hmap⟩

omit [PyHost F] in
/-- One bucket: the remainder's groups and every spilled item of the bucket. -/
lemma bucketRows_yield {groups : GroupTable F} {files : List (SpillItems F)} {b : ℕ} {xs : List α}
    (hS : OrderedDict.LawfulOn S) (hm : Mergeable aggs P) (hrows : HasRows spec aggs P)
    (hg : groups.KeysIn S)
    (hfiles : ∀ item ∈ files.flatten, S item.1 ∧ spillPartitioner.textTarget item.1 = b)
    (h : Summarise P (bucketItems groups b ++ files.flatten) xs) :
    ∃ items rows, bucketRows spec aggs groups b files = .ok rows ∧
      YieldsGroups spec aggs P (fun k => S k ∧ spillPartitioner.textTarget k = b) items rows xs := by
  have hSb : OrderedDict.LawfulOn (fun k => S k ∧ spillPartitioner.textTarget k = b) :=
    fun k k' hk hk' => hS k k' hk.1 hk'.1
  have hdistinct : ((bucketItems groups b).map Prod.fst).Pairwise (fun a c => (a == c) = false) :=
    groups.distinct.sublist (List.filter_sublist.map _)
  have hofList := OrderedDict.items_ofList (bucketItems groups b) hdistinct
  have hkeys : (OrderedDict.ofList (bucketItems groups b)).KeysIn
      (fun k => S k ∧ spillPartitioner.textTarget k = b) := by
    intro k hk
    rw [OrderedDict.keys, hofList] at hk
    obtain ⟨item, hitem, rfl⟩ := List.mem_map.mp hk
    obtain ⟨hmem, hb⟩ := List.mem_filter.mp hitem
    exact ⟨hg item.1 (List.mem_map_of_mem hmem), of_decide_eq_true hb⟩
  obtain ⟨xs₁, xs₂, hremainder, hspilled, hx⟩ := h.of_append
  rw [← hofList] at hremainder
  obtain ⟨merged, hrun, hg', hmerged⟩ := mergeSpilled_run hSb hm hkeys hfiles hremainder hspilled
  obtain ⟨rows, hmap, hy⟩ := tableRows_yield hSb hrows hg' (hmerged.perm hx)
  refine ⟨merged.items, rows, ?_, hy⟩
  rw [bucketRows, hrun]
  exact hmap

omit [PyHost F] in
/-- Bucket after bucket. -/
lemma bucketsRows_yield {groups : GroupTable F} {buckets : List (List (SpillItems F) × ℕ)}
    {batches : List (List α)} (hS : OrderedDict.LawfulOn S) (hm : Mergeable aggs P)
    (hrows : HasRows spec aggs P) (hg : groups.KeysIn S)
    (hplaced : ∀ p ∈ buckets, ∀ item ∈ p.1.flatten,
      S item.1 ∧ spillPartitioner.textTarget item.1 = p.2)
    (h : List.Forall₂ (fun p xs => Summarise P (bucketItems groups p.2 ++ p.1.flatten) xs)
      buckets batches) :
    ∃ parts lists, buckets.mapM (fun p => bucketRows spec aggs groups p.2 p.1) = .ok parts ∧
      List.Forall₂ (fun (p : List (SpillItems F) × ℕ) (items : List (Group F)) =>
        (items.map Prod.fst).Nodup ∧
        ∀ i ∈ items, S i.1 ∧ spillPartitioner.textTarget i.1 = p.2) buckets lists ∧
      Summarise P lists.flatten batches.flatten ∧
      List.Forall₂ (fun item r => groupRow spec aggs item.1 item.2 = .ok r) lists.flatten
        parts.flatten := by
  induction h with
  | nil => exact ⟨[], [], rfl, .nil, .nil, .nil⟩
  | @cons p xs buckets batches hp _ ih =>
      obtain ⟨hplaced₁, hplaced₂⟩ := List.forall_mem_cons.mp hplaced
      obtain ⟨items, rows, hb, hy⟩ := bucketRows_yield hS hm hrows hg hplaced₁ hp
      obtain ⟨parts, lists, hparts, hkeys, hsum, hall⟩ := ih hplaced₂
      refine ⟨rows :: parts, items :: lists, ?_, .cons ⟨hy.nodup, hy.keys⟩ hkeys,
        hy.summarise.append hsum, List.rel_append hy.rows hall⟩
      rw [List.mapM_cons, hb, ExceptList.bind_ok, hparts]
      rfl

omit [PyHost F] in
/-- After the loop the partition yields one row for each key, spilling or not. -/
theorem accumulatedRows_yield {acc : Accumulation F} {xs : List α} (hS : OrderedDict.LawfulOn S)
    (hp : KeysPrint S)
    (hm : Mergeable aggs P) (hrows : HasRows spec aggs P) (h : Accumulated P S acc xs) :
    ∃ items rows, accumulatedRows spec aggs acc = .ok rows ∧
      YieldsGroups spec aggs P S items rows xs := by
  cases hspilled : acc.spilled with
  | false =>
      have hsum := h.summarise
      rw [h.unspilled hspilled, List.append_nil] at hsum
      obtain ⟨rows, hmap, hy⟩ := tableRows_yield hS hrows h.keys hsum
      exact ⟨_, rows, by rw [accumulatedRows, hspilled]; exact hmap, hy⟩
  | true =>
      obtain ⟨batches, hbatches, hx⟩ :=
        (h.summarise.perm_items (bucketed_perm h.buckets)).of_flatten
      rw [List.forall₂_map_left_iff] at hbatches
      obtain ⟨parts, lists, hparts, hkeys, hsum, hall⟩ :=
        bucketsRows_yield hS hm hrows h.keys h.placed hbatches
      refine ⟨lists.flatten, parts.flatten, ?_, ?_, ?_, hsum.perm hx, hall⟩
      · rw [accumulatedRows, hspilled, if_pos rfl, bucketNumbers_ok hp h.keys, ExceptList.bind_ok,
          hparts]
        rfl
      · have hindex : (acc.spillPaths.zipIdx.map Prod.snd).Nodup := by
          rw [List.zipIdx_map_snd]
          exact List.nodup_range'
        exact Dealing.nodup_keys_flatten hindex
          (hkeys.imp fun p items hi => ⟨hi.1, fun i him => (hi.2 i him).2⟩)
      · intro item hitem
        obtain ⟨items, hitems, hmem⟩ := List.mem_flatten.mp hitem
        obtain ⟨p, -, hp⟩ := Dealing.exists_partner hkeys hitems
        exact (hp.2 item hmem).1

end Merge

/-- A partition whose every row adds its batch yields one row for each key. -/
theorem hashAggregatePartition_yields (pid : ℕ) {parent : Partition F} {rows : List (Record F)}
    {batches : List (List α)} (hS : OrderedDict.LawfulOn S) (hp : KeysPrint S)
    (hm : Mergeable aggs P) (hrows : HasRows spec aggs P) (haggs : spec.aggregates.mapM unwrapAggregate = .ok aggs)
    (hparent : parent.toList = .ok rows)
    (h : List.Forall₂ (fun r ys => ∃ k, S k ∧ Absorbs spec aggs P r k ys) rows batches) :
    ∃ part items out, hashAggregatePartition spec pid parent = .ok part ∧ part.toList = .ok out ∧
      YieldsGroups spec aggs P S items out batches.flatten := by
  obtain ⟨acc, hacc, hinv⟩ := accumulate_run hS hp h (accumulated_start (P := P) (S := S))
  obtain ⟨items, out, hout, hy⟩ := accumulatedRows_yield hS hp hm hrows hinv
  have hpart : ∃ part, hashAggregatePartition spec pid parent = .ok part ∧
      part.toList = accumulatedRows spec aggs acc := by
    rw [hashAggregatePartition, haggs, ExceptList.bind_ok, hparent, ExceptList.bind_ok, hacc]
    exact ⟨_, rfl, by simp [Partition.toList]⟩
  obtain ⟨part, hpart, hlist⟩ := hpart
  exact ⟨part, items, out, hpart, hlist.trans hout, hy⟩

end MiniSpark
