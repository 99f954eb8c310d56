import MiniSpark.PlanSemantics
import MiniSpark.ReprTexts

/-!
# Reading back what a task wrote

A shuffle write that succeeds leaves one block for every target it met; reading
the blocks of a target gives the rows of that target in their order. Files of
other tasks are left alone, since a path determines stage, task and target.
-/
namespace MiniSpark

variable {F : Type} [PyRuntime F]

section Paths

theorem blockPath_inj {root : String} {stage stage' task task' target target' : ℕ}
    (h : blockPath root stage task target = blockPath root stage' task' target') :
    stage = stage' ∧ task = task' ∧ target = target' := by
  simp only [blockPath, List.cons.injEq, String.append_left_inj, String.append_right_inj,
    true_and, and_true] at h
  exact ⟨toString_nat_inj h.1, toString_nat_inj h.2.2, toString_nat_inj h.2.1⟩

end Paths

section Writers

/-- Append one row to the writer of its target. -/
def addRow (writers : BlockWriters F) (p : ℕ × Record F) : BlockWriters F :=
  writers.set p.1 ((writers.get? p.1).getD [] ++ [p.2])

omit [PyRuntime F] in
/-- When every row has a target, the loop appends every row. -/
lemma writeLoop_of_tagRows {target : Record F → Py ℕ} {rows : List (Record F)}
    {tagged : List (ℕ × Record F)} (h : tagRows target rows = .ok tagged)
    (writers : BlockWriters F) :
    writeLoop target rows writers = (.ok (), tagged.foldl addRow writers) := by
  induction rows generalizing tagged writers with
  | nil =>
      cases h
      rfl
  | cons r rows ih =>
      rw [tagRows, List.mapM_cons] at h
      obtain ⟨p, hp, h⟩ := ExceptList.bind_eq_ok.mp h
      obtain ⟨t, ht, hp⟩ := ExceptList.bind_eq_ok.mp hp
      obtain ⟨rest, hrest, h⟩ := ExceptList.bind_eq_ok.mp h
      cases hp
      cases h
      rw [writeLoop, ht]
      exact ih hrest _

omit [PyRuntime F] in
/-- A loop that ends without exception found a target for every row. -/
lemma tagRows_of_writeLoop {target : Record F → Py ℕ} {rows : List (Record F)}
    {writers : BlockWriters F} (h : (writeLoop target rows writers).1 = .ok ()) :
    ∃ tagged, tagRows target rows = .ok tagged := by
  induction rows generalizing writers with
  | nil => exact ⟨[], rfl⟩
  | cons r rows ih =>
      rw [writeLoop] at h
      split at h
      · cases h
      · next t ht =>
          obtain ⟨tagged, htagged⟩ := ih h
          refine ⟨(t, r) :: tagged, ?_⟩
          rw [tagRows] at htagged
          rw [tagRows, List.mapM_cons, ht, htagged]
          rfl

omit [PyRuntime F] in
/-- The rows of a target: what its writer has appended. -/
lemma addRow_get? (tagged : List (ℕ × Record F)) (writers : BlockWriters F) (t : ℕ) :
    ((tagged.foldl addRow writers).get? t).getD [] =
      (writers.get? t).getD [] ++ (tagged.filter (fun p => p.1 = t)).map Prod.snd := by
  induction tagged generalizing writers with
  | nil => simp
  | cons p tagged ih =>
      rw [List.foldl_cons, ih, addRow, OrderedDict.get?_set]
      by_cases hp : p.1 = t
      · subst hp
        simp
      · simp [hp]

end Writers

section Files

variable [PyHost F] {root : String} {stage task : ℕ}

lemma flush_other {items : List (ℕ × List (Record F))} {disk : Disk F} {path : Path}
    (h : ∀ p ∈ items, path ≠ blockPath root stage task p.1) :
    (items.foldl (fun d p => d.write (blockPath root stage task p.1) (PyHost.pickle p.2)) disk) path =
      disk path := by
  induction items generalizing disk with
  | nil => rfl
  | cons p items ih =>
      rw [List.foldl_cons, ih (fun q hq => h q (List.mem_cons_of_mem _ hq)), Disk.write,
        if_neg (h p List.mem_cons_self)]

lemma flush_block {items : List (ℕ × List (Record F))} {disk : Disk F} {t : ℕ}
    {rows : List (Record F)} (hnd : (items.map Prod.fst).Nodup) (hmem : (t, rows) ∈ items) :
    (items.foldl (fun d p => d.write (blockPath root stage task p.1) (PyHost.pickle p.2)) disk)
      (blockPath root stage task t) = some (PyHost.pickle rows) := by
  induction items generalizing disk with
  | nil => cases hmem
  | cons p items ih =>
      rw [List.map_cons, List.nodup_cons] at hnd
      rw [List.foldl_cons]
      cases List.mem_cons.mp hmem with
      | inr hmem => exact ih hnd.2 hmem
      | inl heq =>
          subst heq
          rw [flush_other, Disk.write, if_pos rfl]
          intro q hq hpath
          have hmem : q.1 ∈ items.map Prod.fst := List.mem_map_of_mem hq
          exact hnd.1 (by rwa [← (blockPath_inj hpath).2.2] at hmem)

/-- The block records these rows, and its file still holds them unless it is lost. -/
def Holds (lost : Path → Prop) (disk : Disk F) (block : ShuffleBlockMeta)
    (rows : List (Record F)) : Prop :=
  block.checksum = PyHost.md5Hex (PyHost.pickle rows) ∧
    (¬ lost block.path → disk block.path = some (PyHost.pickle rows))

theorem Holds.readBlock {lost : Path → Prop} {disk : Disk F} {block : ShuffleBlockMeta}
    {rows : List (Record F)} (h : Holds lost disk block rows) (hkept : ¬ lost block.path) :
    readBlock disk block = .ok rows := by
  simp [MiniSpark.readBlock, h.2 hkept, h.1, PyHost.unpickle_pickle]

/-- The blocks of every target, read in order, hold the rows written to it. -/
def Stored (lost : Path → Prop) (disk : Disk F) (blocks : List ShuffleBlockMeta)
    (written : Written F) : Prop :=
  ∀ t, ∃ chunks, List.Forall₂ (Holds lost disk) (blocks.filter (fun b => b.targetPartition = t))
    chunks ∧ chunks.flatten = readTarget written t

namespace Stored

variable {lost : Path → Prop} {disk disk' : Disk F} {blocks blocks' : List ShuffleBlockMeta}
  {written written' : Written F}

theorem nil : Stored lost disk [] [] := fun _ => ⟨[], .nil, rfl⟩

omit [PyRuntime F] [PyHost F] in
lemma readTarget_append (written written' : Written F) (t : ℕ) :
    readTarget (written ++ written') t = readTarget written t ++ readTarget written' t := by
  simp [readTarget]

theorem append (h : Stored lost disk blocks written) (h' : Stored lost disk blocks' written') :
    Stored lost disk (blocks ++ blocks') (written ++ written') := by
  intro t
  obtain ⟨chunks, hc, hrows⟩ := h t
  obtain ⟨chunks', hc', hrows'⟩ := h' t
  refine ⟨chunks ++ chunks', ?_, ?_⟩
  · rw [List.filter_append]
    exact List.rel_append hc hc'
  · rw [List.flatten_append, hrows, hrows', readTarget_append]

/-- Files that stay as they are keep what they hold. -/
theorem frame (h : Stored lost disk blocks written)
    (hd : ∀ b ∈ blocks, ¬ lost b.path → disk' b.path = disk b.path) :
    Stored lost disk' blocks written := by
  intro t
  obtain ⟨chunks, hc, hrows⟩ := h t
  refine ⟨chunks, ExceptList.forall₂_imp_of_mem hc (fun b hb rows _ hrows => ?_), hrows⟩
  exact ⟨hrows.1, fun hkept => (hd b (List.mem_of_mem_filter hb) hkept).trans (hrows.2 hkept)⟩

/-- Blocks none of which is lost read back as the rows of their target. -/
theorem read (h : Stored lost disk blocks written) {t : ℕ}
    (hkept : ∀ b ∈ blocks, b.targetPartition = t → ¬ lost b.path) :
    readShuffleBlocks disk (blocks.filter (fun b => b.targetPartition = t)) =
      .ok (readTarget written t) := by
  obtain ⟨chunks, hc, hrows⟩ := h t
  have hparts : (blocks.filter (fun b => b.targetPartition = t)).mapM (readBlock disk) =
      .ok chunks := by
    refine ExceptList.mapM_eq_ok.mpr (ExceptList.forall₂_imp_of_mem hc (fun b hb rows _ hholds => ?_))
    have hb' := List.mem_filter.mp hb
    exact hholds.readBlock (hkept b hb'.1 (by simpa using hb'.2))
  rw [readShuffleBlocks, hparts, ← hrows]
  rfl

end Stored

/-- The files a task may write. -/
def TaskFile (root : String) (stage task : ℕ) (path : Path) : Prop :=
  ∃ t, path = blockPath root stage task t

/-- The metadata of the blocks a task writes. -/
def taskBlocks (root : String) (stage task : ℕ) (tagged : List (ℕ × Record F)) :
    List ShuffleBlockMeta :=
  (tagged.foldl addRow OrderedDict.empty).items.map (fun p => blockMeta root stage task p.1 p.2)

lemma taskBlocks_file {tagged : List (ℕ × Record F)} :
    ∀ b ∈ taskBlocks root stage task tagged, TaskFile root stage task b.path := by
  intro b hb
  obtain ⟨p, -, rfl⟩ := List.mem_map.mp hb
  exact ⟨p.1, rfl⟩

/-- A shuffle write whose rows all have a target stores exactly these rows. -/
theorem writeShufflePartition_stores (lost : Path → Prop) {target : Record F → Py ℕ}
    {rows : List (Record F)} {tagged : List (ℕ × Record F)} {disk disk' : Disk F}
    {outcome : Py (List ShuffleBlockMeta)} (htag : tagRows target rows = .ok tagged)
    (h : writeShufflePartition root stage task rows target disk = (outcome, disk')) :
    outcome = .ok (taskBlocks root stage task tagged) ∧
      Stored lost disk' (taskBlocks root stage task tagged) [tagged] ∧
      ∀ path, ¬ TaskFile root stage task path → disk' path = disk path := by
  rw [writeShufflePartition, writeLoop_of_tagRows htag] at h
  simp only [ExceptList.bind_ok, ExceptList.pure_eq_ok, Prod.mk.injEq] at h
  obtain ⟨rfl, rfl⟩ := h
  set writers := tagged.foldl addRow OrderedDict.empty with hwriters
  have hnd : (writers.items.map Prod.fst).Nodup := OrderedDict.distinct_keys_iff.mp writers.distinct
  refine ⟨rfl, fun t => ?_, fun path hpath => flush_other (fun p _ hp => hpath ⟨p.1, hp⟩)⟩
  have hget := addRow_get? tagged OrderedDict.empty t
  rw [← hwriters] at hget
  refine ⟨(writers.get? t).toList, ?_, ?_⟩
  · rw [taskBlocks, List.filter_map]
    have hfilter := writers.filter_key t
    simp only [beq_eq_decide] at hfilter
    simp only [Function.comp_def, blockMeta, ← hwriters, hfilter]
    cases hw : writers.get? t with
    | none => exact .nil
    | some chunk =>
        refine .cons ⟨rfl, fun _ => ?_⟩ .nil
        exact flush_block hnd (OrderedDict.get?_eq_some_iff.mp hw)
  · have hempty : ((OrderedDict.empty : BlockWriters F).get? t).getD [] = [] := rfl
    rw [hempty, List.nil_append] at hget
    rw [readTarget, List.flatten_singleton, ← hget]
    cases writers.get? t <;> simp

end Files

end MiniSpark
