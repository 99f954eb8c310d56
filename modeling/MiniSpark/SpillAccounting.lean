import MiniSpark.AggregateAccumulation
import MiniSpark.SpillThresholds

/-!
# The accounts of the accumulation loop

The loop counts bytes by the difference that a row makes, with the key of the row in place of
the equal key that the table holds. The two sizes of that key cancel, so the count is that of
the table after every row. No key is lost: it is in the table or in a listed spill file.
-/
namespace MiniSpark

variable {F : Type} [PyRuntime F]

/-- The same key object, or an equal one. -/
def SameKey (k k' : List (Value F)) : Prop := k = k' ∨ (k == k') = true

/-- The key of an entry of the table, or of an item of a listed spill file, is the given one. -/
def HeldIn (groups : GroupTable F) (paths : List (List (SpillItems F))) (key : List (Value F)) :
    Prop :=
  ∃ item ∈ groups.items ++ paths.flatten.flatten, SameKey item.1 key

variable {key k : List (Value F)} {groups : GroupTable F} {paths : List (List (SpillItems F))}

/-- A write keeps every key of a table. -/
lemma exists_key_set (key state : List (Value F))
    {item : List (Value F) × List (Value F)} (h : item ∈ groups.items) :
    ∃ item' ∈ (groups.set key state).items, item'.1 = item.1 := by
  rw [OrderedDict.items_set]
  obtain ⟨-, hset⟩ | ⟨pre, p, post, hitems, -, -, hset⟩ :=
    OrderedDict.setItems_cases key state groups.items
  · rw [hset]
    exact ⟨item, List.mem_append_left _ h, rfl⟩
  · rw [hset]
    rw [hitems] at h
    obtain hpre | hpost := List.mem_append.mp h
    · exact ⟨item, List.mem_append_left _ hpre, rfl⟩
    · obtain rfl | hpost := List.mem_cons.mp hpost
      · exact ⟨(item.1, state), by simp, rfl⟩
      · exact ⟨item, by simp [hpost], rfl⟩

/-- The written key is in the table: itself, or an equal key that was there before. -/
lemma exists_sameKey_set (groups : GroupTable F) (key state : List (Value F)) :
    ∃ item ∈ (groups.set key state).items, SameKey item.1 key := by
  rw [OrderedDict.items_set]
  obtain ⟨-, hset⟩ | ⟨pre, p, post, -, hequal, -, hset⟩ :=
    OrderedDict.setItems_cases key state groups.items
  · exact ⟨(key, state), by simp [hset], Or.inl rfl⟩
  · exact ⟨(p.1, state), by simp [hset], Or.inr hequal⟩

/-- A write to the table keeps the keys that are held. -/
lemma HeldIn.set (h : HeldIn groups paths k) (key state : List (Value F)) :
    HeldIn (groups.set key state) paths k := by
  obtain ⟨item, hitem, hsame⟩ := h
  cases List.mem_append.mp hitem with
  | inl htable =>
      obtain ⟨item', hitem', hkey⟩ := exists_key_set key state htable
      exact ⟨item', List.mem_append_left _ hitem', hkey ▸ hsame⟩
  | inr hfile => exact ⟨item, List.mem_append_right _ hfile, hsame⟩

/-- Spilling moves the keys of the table to files that are listed. -/
lemma HeldIn.spill (h : HeldIn groups paths k) (hbuckets : paths.length = aggregateSpillBuckets) :
    HeldIn OrderedDict.empty (spilledPaths groups paths) k := by
  obtain ⟨item, hitem, hsame⟩ := h
  exact ⟨item, List.mem_append_right _ ((spilledPaths_perm hbuckets).mem_iff.mpr hitem), hsame⟩

variable [PyHost F] {spec : HashAggregate F} {aggs : List (AggregateFunction F)}
  {rows : List (Record F)} {acc acc' : Accumulation F} {r : Record F}

/-- What holds after the rows read so far: the count is that of the table, it is below the
threshold, and every key is held. -/
structure ExactAccounts (spec : HashAggregate F) (rows : List (Record F))
    (acc : Accumulation F) : Prop where
  exact : acc.groupsBytes = tableBytes acc.groups
  below : acc.groupsBytes < spec.spillThresholdBytes
  buckets : acc.spillPaths.length = aggregateSpillBuckets
  held : ∀ r ∈ rows, ∀ key, tupleKey spec.groupBy r = .ok key →
    HeldIn acc.groups acc.spillPaths key

lemma exactAccounts_start (hpos : 0 < spec.spillThresholdBytes) :
    ExactAccounts spec [] (Accumulation.start F) where
  exact := rfl
  below := hpos
  buckets := List.length_replicate
  held := by
    intro r hr
    cases hr

/-- One iteration keeps the accounts, spilling or not. -/
theorem accumulate_accounts (hpos : 0 < spec.spillThresholdBytes) (h : ExactAccounts spec rows acc)
    (hacc : accumulate spec aggs acc r = .ok acc') : ExactAccounts spec (rows ++ [r]) acc' := by
  unfold accumulate at hacc
  obtain ⟨key, hkey, hacc⟩ := ExceptList.bind_eq_ok.mp hacc
  obtain ⟨state, -, hacc⟩ := ExceptList.bind_eq_ok.mp hacc
  dsimp only at hacc
  have hbytes : tableBytes (acc.groups.set key state) = acc.groupsBytes -
      ((acc.groups.get? key).map (estimateGroupBytes key)).getD 0 +
        estimateGroupBytes key state := by
    rw [tableBytes_set, h.exact]
  rw [← hbytes] at hacc
  -- the keys held once the row's group is written
  have hwritten : ∀ r' ∈ rows ++ [r], ∀ k, tupleKey spec.groupBy r' = .ok k →
      HeldIn (acc.groups.set key state) acc.spillPaths k := by
    intro r' hr' k hk
    cases List.mem_append.mp hr' with
    | inl hold => exact (h.held r' hold k hk).set key state
    | inr hnew =>
        obtain rfl := List.mem_singleton.mp hnew
        rw [hkey] at hk
        obtain rfl := Except.ok.inj hk
        obtain ⟨item, hitem, hsame⟩ := exists_sameKey_set acc.groups key state
        exact ⟨item, List.mem_append_left _ hitem, hsame⟩
  split at hacc
  · obtain ⟨paths, hpaths, hacc⟩ := ExceptList.bind_eq_ok.mp hacc
    obtain rfl := eq_of_spillGroups hpaths
    cases hacc
    exact ⟨rfl, hpos, by rw [spilledPaths, List.length_mapIdx, h.buckets],
      fun r' hr' k hk => (hwritten r' hr' k hk).spill h.buckets⟩
  · next hlt =>
      cases hacc
      exact ⟨rfl, by simpa using hlt, h.buckets, hwritten⟩

/-- After every iteration of the loop the byte count is the size of the table, it is below the
threshold, and every key seen is in the table or in a listed spill file. -/
theorem accumulate_rows_accounts (hpos : 0 < spec.spillThresholdBytes)
    (h : rows.foldlM (accumulate spec aggs) (Accumulation.start F) = .ok acc) :
    ExactAccounts spec rows acc := by
  induction rows using List.reverseRecOn generalizing acc with
  | nil =>
      cases h
      exact exactAccounts_start hpos
  | append_singleton rows r ih =>
      rw [List.foldlM_append] at h
      obtain ⟨before, hbefore, hlast⟩ := ExceptList.bind_eq_ok.mp h
      rw [List.foldlM_cons] at hlast
      obtain ⟨after, hafter, hnil⟩ := ExceptList.bind_eq_ok.mp hlast
      cases hnil
      exact accumulate_accounts hpos (ih hbefore) hafter

section Examples

/-- `count(*)` by one column, with a threshold of 100 bytes. -/
def countByA : HashAggregate ℚ :=
  ⟨[.column "a"], [.countStar], ⟨[], List.nodup_nil⟩, true, 100⟩

/-- Equal keys of different sizes, and a second group that makes the table spill. -/
def equalKeyRows : List (Record ℚ) :=
  (intRows ["a"] [[[.int 1], [.float 1], [.int 2], [.int 1]]]).flatten

theorem accumulate_rows_accounts_equalKeys : ∃ acc,
    equalKeyRows.foldlM (accumulate countByA [⟨.count, none⟩]) (Accumulation.start ℚ) = .ok acc ∧
    ExactAccounts countByA equalKeyRows acc := by
  obtain ⟨acc, hacc⟩ : ∃ acc, equalKeyRows.foldlM (accumulate countByA [⟨.count, none⟩])
      (Accumulation.start ℚ) = .ok acc := ⟨_, rfl⟩
  exact ⟨acc, hacc, accumulate_rows_accounts (by decide) hacc⟩

end Examples

end MiniSpark
