import MiniSpark.Analyzer
import MiniSpark.Exchange
import MiniSpark.KeyKinds
import MiniSpark.Planner
import MiniSpark.RowKeys
import MiniSpark.SplitRefinement

/-!
# Both join strategies compute the equi-join

A shuffle join sends rows with equal keys to one target partition, a broadcast
join hands every left partition all right rows. Either way each pair of matching
rows meets exactly once.
-/
namespace MiniSpark

variable {F : Type} [PyRuntime F]

section Reference

/-- The reference join: for every left row and every right row with equal `on` values,
the left row's fields and those of the right row that are not in `on`. -/
def equiJoin (on : List String) (left right : List (Record F)) : List (List (String × Value F)) :=
  left.flatMap (fun l =>
    (right.filter (fun r => on.all (fun n => l.get? n == r.get? n))).map
      (fun r => l.items ++ r.items.filter (fun p => p.1 ∉ on)))

omit [PyRuntime F] in
/-- Fields of the right row that are new extend the left row. -/
lemma mergeRow_items {leftNames rightNames on : List String} {l r : Record F}
    (hl : HasKeys leftNames l) (hr : HasKeys rightNames r)
    (hclash : ∀ n ∈ leftNames, n ∈ rightNames → n ∈ on) :
    (mergeRow on l r).items = l.items ++ r.items.filter (fun p => p.1 ∉ on) := by
  have hfresh : ∀ a ∈ l.keys, ∀ b ∈ (r.items.filter (fun p => p.1 ∉ on)).map Prod.fst,
      (a == b) = false := by
    intro a ha b hb
    obtain ⟨p, hp, rfl⟩ := List.mem_map.mp hb
    obtain ⟨hmem, hnot⟩ := List.mem_filter.mp hp
    have hkey : p.1 ∈ r.keys := List.mem_map_of_mem hmem
    rw [beq_eq_false_iff_ne]
    rintro rfl
    have hin := hclash p.1 ((hasKeys_iff_keys.mp hl p.1).mp ha) ((hasKeys_iff_keys.mp hr p.1).mp hkey)
    simp [hin] at hnot
  exact OrderedDict.foldl_set_items_of_fresh _ _
    (List.pairwise_append.mpr ⟨l.distinct, r.distinct.sublist (List.filter_sublist.map _), hfresh⟩)

/-- The nested loop produces the rows of the reference join. -/
theorem nestedLoop_perm_equiJoin {on leftNames rightNames : List String}
    {left right : List (Record F)} (hkinds : HoldKinds on (left ++ right))
    (hl : ∀ l ∈ left, HasKeys leftNames l) (hr : ∀ r ∈ right, HasKeys rightNames r)
    (hclash : ∀ n ∈ leftNames, n ∈ rightNames → n ∈ on) :
    ((nestedLoop (on.map .column) (on.map .column) on left right).map OrderedDict.items).Perm
      (equiJoin on left right) := by
  have hmatch : ∀ l ∈ left, ∀ r ∈ right,
      keysMatch (on.map .column) (on.map .column) l r = on.all (fun n => l.get? n == r.get? n) := by
    intro l hlm r hrm
    have hlmem : l ∈ left ++ right := List.mem_append_left _ hlm
    have hrmem : r ∈ left ++ right := List.mem_append_right _ hrm
    rw [keysMatch_of_ok (hkinds.tupleKey_ok hlmem) (hkinds.tupleKey_ok hrmem),
      hkinds.keyOf_beq hlmem hrmem]
  -- both loops list, for every pair, nothing or the joined row
  let pairRow (l r : Record F) : List (List (String × Value F)) :=
    if on.all (fun n => l.get? n == r.get? n) then
      [l.items ++ r.items.filter (fun p => p.1 ∉ on)] else []
  have hloop : (nestedLoop (on.map .column) (on.map .column) on left right).map
      OrderedDict.items = right.flatMap (fun r => left.flatMap (fun l => pairRow l r)) := by
    rw [nestedLoop, List.map_flatMap]
    refine List.flatMap_congr (fun r hrm => ?_)
    rw [joinedWith, List.map_map, Dealing.map_filter_eq_flatMap]
    refine List.flatMap_congr (fun l hlm => ?_)
    rw [hmatch l hlm r hrm, Function.comp_apply, mergeRow_items (hl l hlm) (hr r hrm) hclash]
  have href : equiJoin on left right = left.flatMap (fun l => right.flatMap (pairRow l)) := by
    rw [equiJoin]
    exact List.flatMap_congr (fun l _ => Dealing.map_filter_eq_flatMap _ _ right)
  rw [hloop, href]
  exact (Dealing.flatMap_swap_perm left right pairRow).symm

/-- The reference join of a table read in parts. -/
lemma equiJoin_flatten (on : List String) (lparts : List (List (Record F)))
    (right : List (Record F)) :
    equiJoin on lparts.flatten right = lparts.flatMap (fun left => equiJoin on left right) := by
  rw [equiJoin, ← List.flatMap_id, List.flatMap_assoc]
  rfl

end Reference

section Strategies

variable [PyHost F]

omit [PyHost F] in
/-- Rows that match have the same target: dealing both sides separates no match. -/
theorem dealt_nestedLoop_perm {leftKeys rightKeys : List (Expression F)} (on : List String)
    {left right : List (Record F)} {t : Record F → ℕ} {n : ℕ}
    (hmatch : ∀ l ∈ left, ∀ r ∈ right, keysMatch leftKeys rightKeys l r = true → t l = t r)
    (hlt : ∀ r ∈ right, t r < n) :
    ((List.range n).flatMap (fun p => nestedLoop leftKeys rightKeys on
      (left.filter (fun l => t l = p)) (right.filter (fun r => t r = p)))).Perm
      (nestedLoop leftKeys rightKeys on left right) := by
  have hpart : ∀ p ∈ List.range n, nestedLoop leftKeys rightKeys on
      (left.filter (fun l => t l = p)) (right.filter (fun r => t r = p)) =
      (right.filter (fun r => t r = p)).flatMap (joinedWith leftKeys rightKeys on left) := by
    intro p _
    refine List.flatMap_congr (fun r hr => ?_)
    obtain ⟨hrm, htr⟩ := List.mem_filter.mp hr
    rw [joinedWith, joinedWith, List.filter_filter]
    congr 1
    refine List.filter_congr (fun l hl => ?_)
    cases hm : keysMatch leftKeys rightKeys l r with
    | false => rfl
    | true => simpa [hmatch l hl r hrm hm] using htr
  rw [List.flatMap_congr hpart, ← List.flatMap_assoc]
  exact (Dealing.deal_perm hlt).flatMap_right _

/-- The partition a join task yields is the nested loop of its two inputs. -/
def JoinsTo (leftKeys rightKeys : List (Expression F)) (on : List String) (l r : PlanMeaning F)
    (pid : ℕ) (rows : List (Record F)) : Prop :=
  ∃ leftPart rightPart left right, l.part pid = .ok leftPart ∧ leftPart.toList = .ok left ∧
    r.part pid = .ok rightPart ∧ rightPart.toList = .ok right ∧ HaveKeys leftKeys left ∧
    HaveKeys rightKeys right ∧ rows = nestedLoop leftKeys rightKeys on left right

lemma denotedRows_hashJoin {l r : PhysicalPlan F} {leftKeys rightKeys : List (Expression F)}
    {on : List String} {schema : Schema} {dl dr : PlanMeaning F} {parts : List (List (Record F))}
    (hl : denote l = .ok dl) (hr : denote r = .ok dr)
    (h : List.Forall₂ (JoinsTo leftKeys rightKeys on dl dr) (List.range dl.numPartitions) parts) :
    denotedRows (.hashJoinExec l r leftKeys rightKeys on schema) = .ok parts := by
  simp only [denotedRows, denote, hl, hr, ExceptList.bind_ok, ExceptList.pure_eq_ok]
  rw [ExceptList.mapM_eq_ok]
  refine h.imp (fun pid rows hrows => ?_)
  obtain ⟨leftPart, rightPart, left, right, hlp, hlrows, hrp, hrrows, hlk, hrk, rfl⟩ := hrows
  have hjoin : hashJoinRows leftKeys rightKeys on left right = .ok _ :=
    hashJoinRows_eq_ok.mpr ⟨hlk, hrk, rfl⟩
  obtain ⟨table, htable, hprobe⟩ := ExceptList.bind_eq_ok.mp hjoin
  simp only [hlp, hrp, hashJoinPartition, hlrows, htable, hrrows, ExceptList.bind_ok,
    ExceptList.pure_eq_ok]
  exact hprobe

omit [PyHost F] in
lemma HoldKinds.haveKeys {names : List String} {rows rows' : List (Record F)}
    (h : HoldKinds names rows) (hsub : rows' ⊆ rows) : HaveKeys (names.map .column) rows' :=
  fun _ hr => ⟨_, h.tupleKey_ok (hsub hr)⟩

/-- A broadcast join: every left partition is joined with all right rows. -/
theorem denotedRows_broadcast {l r : PhysicalPlan F} {on : List String} {schema : Schema}
    {lparts rparts : List (List (Record F))} (hl : denotedRows l = .ok lparts)
    (hr : denotedRows r = .ok rparts) (hkinds : HoldKinds on (lparts.flatten ++ rparts.flatten))
    (hprints : ∀ row ∈ lparts.flatten ++ rparts.flatten, KeyPrints on row) (n : ℕ) :
    denotedRows (planJoin n l r on true schema) = .ok (lparts.map (fun left =>
      nestedLoop (on.map .column) (on.map .column) on left rparts.flatten)) := by
  obtain ⟨dl, hdl, hlrows⟩ := ExceptList.bind_eq_ok.mp hl
  have hkl : HoldKinds on lparts.flatten := hkinds.mono (List.subset_append_left _ _)
  have hkr : HoldKinds on rparts.flatten := hkinds.mono (List.subset_append_right _ _)
  obtain ⟨target, htarget, ht⟩ := hashExchange_targets le_rfl (fun _ hr => hkr.tupleKey_ok hr)
    (fun row hr => hprints row (List.mem_append_right _ hr))
  -- one target holds everything
  have hall : rparts.flatten.filter (fun row => hashTarget on ⟨1, le_rfl⟩ row = 0) =
      rparts.flatten := by
    refine List.filter_eq_self.mpr (fun row _ => ?_)
    have := HashPartitioner.textTarget_lt ⟨1, le_rfl⟩ (keyOf on row)
    exact decide_eq_true (Nat.lt_one_iff.mp this)
  refine denotedRows_hashJoin hdl (denote_exchange hr htarget ht) ?_
  rw [List.forall₂_map_right_iff, List.forall₂_iff_zip]
  obtain ⟨hlen, hpair⟩ := List.forall₂_iff_zip.mp (ExceptList.mapM_eq_ok.mp hlrows)
  refine ⟨hlen, fun {pid left} hmem => ?_⟩
  obtain ⟨part, hpart, hrows⟩ := ExceptList.bind_eq_ok.mp (hpair hmem)
  refine ⟨part, _, left, rparts.flatten, hpart, hrows, rfl, congrArg _ hall,
    hkl.haveKeys (fun _ => List.mem_flatten_of_mem (List.of_mem_zip hmem).2),
    hkr.haveKeys (List.Subset.refl _), rfl⟩

/-- A shuffle join: both sides are dealt by the hash of their keys. -/
theorem denotedRows_shuffle {l r : PhysicalPlan F} {on : List String} {schema : Schema}
    {lparts rparts : List (List (Record F))} {n : ℕ} (hn : 1 ≤ n)
    (hl : denotedRows l = .ok lparts) (hr : denotedRows r = .ok rparts)
    (hkinds : HoldKinds on (lparts.flatten ++ rparts.flatten))
    (hprints : ∀ row ∈ lparts.flatten ++ rparts.flatten, KeyPrints on row) :
    denotedRows (planJoin n l r on false schema) = .ok ((List.range n).map (fun pid =>
      nestedLoop (on.map .column) (on.map .column) on
        (lparts.flatten.filter (fun row => hashTarget on ⟨n, hn⟩ row = pid))
        (rparts.flatten.filter (fun row => hashTarget on ⟨n, hn⟩ row = pid)))) := by
  have hkl : HoldKinds on lparts.flatten := hkinds.mono (List.subset_append_left _ _)
  have hkr : HoldKinds on rparts.flatten := hkinds.mono (List.subset_append_right _ _)
  obtain ⟨ltarget, hltarget, hlt⟩ := hashExchange_targets hn (fun _ hr => hkl.tupleKey_ok hr)
    (fun row hr => hprints row (List.mem_append_left _ hr))
  obtain ⟨rtarget, hrtarget, hrt⟩ := hashExchange_targets hn (fun _ hr => hkr.tupleKey_ok hr)
    (fun row hr => hprints row (List.mem_append_right _ hr))
  refine denotedRows_hashJoin (denote_exchange hl hltarget hlt) (denote_exchange hr hrtarget hrt) ?_
  rw [List.forall₂_map_right_iff, List.forall₂_same]
  intro pid _
  exact ⟨_, _, _, _, rfl, rfl, rfl, rfl, hkl.haveKeys List.filter_sublist.subset,
    hkr.haveKeys List.filter_sublist.subset, rfl⟩

/-- Under either strategy the plan's rows are those of the reference join. -/
theorem planJoin_rows {l r : PhysicalPlan F} {on leftNames rightNames : List String}
    (schema : Schema) {lparts rparts : List (List (Record F))} {n : ℕ} (hn : 1 ≤ n)
    (hl : denotedRows l = .ok lparts) (hr : denotedRows r = .ok rparts)
    (hkinds : HoldKinds on (lparts.flatten ++ rparts.flatten))
    (hprints : ∀ row ∈ lparts.flatten ++ rparts.flatten, KeyPrints on row)
    (hlk : ∀ row ∈ lparts.flatten, HasKeys leftNames row)
    (hrk : ∀ row ∈ rparts.flatten, HasKeys rightNames row)
    (hclash : ∀ name ∈ leftNames, name ∈ rightNames → name ∈ on) (broadcast : Bool) :
    ∃ parts, denotedRows (planJoin n l r on broadcast schema) = .ok parts ∧
      (parts.flatten.map OrderedDict.items).Perm (equiJoin on lparts.flatten rparts.flatten) := by
  cases broadcast with
  | true =>
      refine ⟨_, denotedRows_broadcast hl hr hkinds hprints n, ?_⟩
      rw [equiJoin_flatten, ← List.flatMap_def, List.map_flatMap]
      refine List.Perm.flatMap_left lparts (fun left hleft => ?_)
      have hsub : ∀ row ∈ left, row ∈ lparts.flatten := fun _ => List.mem_flatten_of_mem hleft
      refine nestedLoop_perm_equiJoin (hkinds.mono ?_) (fun row hrow => hlk row (hsub row hrow)) hrk
        hclash
      exact List.append_subset.mpr ⟨fun row hrow => List.mem_append_left _ (hsub row hrow),
        List.subset_append_right _ _⟩
  | false =>
      refine ⟨_, denotedRows_shuffle hn hl hr hkinds hprints, ?_⟩
      have hmatch : ∀ lrow ∈ lparts.flatten, ∀ rrow ∈ rparts.flatten,
          keysMatch (on.map .column) (on.map .column) lrow rrow = true →
          hashTarget on ⟨n, hn⟩ lrow = hashTarget on ⟨n, hn⟩ rrow := by
        intro lrow hlrow rrow hrrow hm
        have hlmem : lrow ∈ lparts.flatten ++ rparts.flatten := List.mem_append_left _ hlrow
        have hrmem : rrow ∈ lparts.flatten ++ rparts.flatten := List.mem_append_right _ hrrow
        rw [keysMatch_of_ok (hkinds.tupleKey_ok hlmem) (hkinds.tupleKey_ok hrmem),
          hkinds.keyOf_beq_iff hlmem hrmem] at hm
        rw [hashTarget, hashTarget, hm]
      have hdeal := dealt_nestedLoop_perm on hmatch
        (fun rrow _ => HashPartitioner.textTarget_lt ⟨n, hn⟩ (keyOf on rrow))
      exact (hdeal.map OrderedDict.items).trans (nestedLoop_perm_equiJoin hkinds hlk hrk hclash)

/-- Both strategies return, as a multiset, the nested-loop join of the rows of the two
sides, however these are distributed. -/
theorem join_collects_equiJoin {left right : LogicalPlan F} {on : List String} {how : String}
    {shufflePartitions : ℕ} {spillThresholdBytes : ℤ} {l r : PhysicalPlan F}
    {lparts rparts : List (List (Record F))} (broadcast : Bool) (maxRetries : ℕ) (root : String)
    (disk : Disk F) (hn : 1 ≤ shufflePartitions)
    (ha : analyze (.join left right on how broadcast) = .ok (.join left right on how broadcast))
    (hl : translate shufflePartitions spillThresholdBytes left = .ok l)
    (hr : translate shufflePartitions spillThresholdBytes right = .ok r)
    (hlrows : denotedRows l = .ok lparts) (hrrows : denotedRows r = .ok rparts)
    (hlk : ∀ row ∈ lparts.flatten, HasKeys left.outputNames row)
    (hrk : ∀ row ∈ rparts.flatten, HasKeys right.outputNames row)
    (hkinds : HoldKinds on (lparts.flatten ++ rparts.flatten))
    (hprints : ∀ row ∈ lparts.flatten ++ rparts.flatten, KeyPrints on row) :
    ∃ plan stages dataset rows,
      translate shufflePartitions spillThresholdBytes (.join left right on how broadcast) =
        .ok plan ∧
      buildStages plan = .ok stages ∧
      runPlan maxRetries executeTask root stages disk = .ok dataset ∧
      dataset.iterRecords = .ok rows ∧
      (rows.map OrderedDict.items).Perm (equiJoin on lparts.flatten rparts.flatten) := by
  have han := analyzed_of_analyze ha
  obtain ⟨schema, hschema⟩ := han.schema_ok
  obtain ⟨-, -, -, -, -, hclash⟩ := han
  obtain ⟨parts, hparts, hperm⟩ := planJoin_rows schema hn hlrows hrrows hkinds hprints hlk hrk
    hclash broadcast
  obtain ⟨stages, hstages, hrun⟩ := runPlan_of_denotedRows hparts maxRetries root disk
  refine ⟨_, stages, _, _, ?_, hstages, hrun, rowsDataset_iterRecords _ parts, hperm⟩
  rw [translate, hl, hr]
  simp only [ExceptList.bind_ok, hschema]
  rfl

end Strategies

section Examples

/-- Nulls match nulls, keys repeat on both sides, and partitions are empty on either side. -/
def abParts : List (List (List (Value ℚ))) :=
  [[[.int 1, .int 2], [.none, .int 3]], [], [[.int 1, .none]]]

def acParts : List (List (List (Value ℚ))) :=
  [[], [[.int 1, .int 5], [.none, .int 6], [.int 1, .int 7]]]

lemma joinParts_holdKinds : HoldKinds ["a"]
    ((intRows ["a", "b"] abParts).flatten ++ (intRows ["a", "c"] acParts).flatten) := by
  intro n hn
  obtain rfl := List.mem_singleton.mp hn
  refine ⟨.int, ?_⟩
  simp only [abParts, acParts, intRows, List.map_cons, List.map_nil, List.flatten_cons,
    List.flatten_nil, List.cons_append, List.nil_append, List.forall_mem_cons]
  exact ⟨⟨_, rfl, trivial⟩, ⟨_, rfl, trivial⟩, ⟨_, rfl, trivial⟩, ⟨_, rfl, trivial⟩,
    ⟨_, rfl, trivial⟩, ⟨_, rfl, trivial⟩, by simp⟩

lemma joinParts_print : ∀ row ∈ (intRows ["a", "b"] abParts).flatten ++
    (intRows ["a", "c"] acParts).flatten, KeyPrints ["a"] row := by
  simp only [abParts, acParts, intRows, List.map_cons, List.map_nil, List.flatten_cons,
    List.flatten_nil, List.cons_append, List.nil_append, List.forall_mem_cons]
  exact ⟨by decide, by decide, by decide, by decide, by decide, by decide, by simp⟩

lemma ab_nodup : ["a", "b"].Nodup := by decide

lemma ac_nodup : ["a", "c"].Nodup := by decide

/-- The rows collected from the join of the two tables, by broadcast or by shuffle. -/
def CollectsTables (broadcast : Bool) : Prop :=
  ∃ plan stages dataset rows,
    translate 2 neverSpill (.join (intTable ["a", "b"] ab_nodup abParts)
      (intTable ["a", "c"] ac_nodup acParts) ["a"] "inner" broadcast) = .ok plan ∧
    buildStages plan = .ok stages ∧
    runPlan 0 executeTask "root" stages (fun _ => none) = .ok dataset ∧
    dataset.iterRecords = .ok rows ∧
    (rows.map OrderedDict.items).Perm (equiJoin ["a"] (intRows ["a", "b"] abParts).flatten
      (intRows ["a", "c"] acParts).flatten)

theorem join_collects_equiJoin_tables : CollectsTables false ∧ CollectsTables true := by
  have hl : ∀ row ∈ (intRows ["a", "b"] abParts).flatten, HasKeys ["a", "b"] row :=
    intRows_hasKeys (by decide) (by decide)
  have hr : ∀ row ∈ (intRows ["a", "c"] acParts).flatten, HasKeys ["a", "c"] row :=
    intRows_hasKeys (by decide) (by decide)
  constructor
  · exact join_collects_equiJoin false 0 "root" (fun _ => none) (by decide) rfl rfl rfl
      (denotedRows_scan _ _ _) (denotedRows_scan _ _ _) hl hr joinParts_holdKinds joinParts_print
  · exact join_collects_equiJoin true 0 "root" (fun _ => none) (by decide) rfl rfl rfl
      (denotedRows_scan _ _ _) (denotedRows_scan _ _ _) hl hr joinParts_holdKinds joinParts_print

/-- One row on either side, with a key that does not print. -/
def longKeyJoin (broadcast : Bool) : LogicalPlan ℚ :=
  .join (intTable ["a"] (by decide) [[[.int longInt]]]) (intTable ["a"] (by decide) [[[.int longInt]]])
    ["a"] "inner" broadcast

/-- The exchange of the right side has no target for the row, whichever the strategy. -/
lemma longKeyJoin_stops (broadcast : Bool) : ∃ plan stages,
    translate 2 neverSpill (longKeyJoin broadcast) = .ok plan ∧ buildStages plan = .ok stages ∧
    ∀ dataset, runPlan 0 executeTask "root" stages (fun _ => none) ≠ .ok dataset := by
  obtain ⟨plan, hplan⟩ : ∃ plan, translate 2 neverSpill (longKeyJoin broadcast) = .ok plan :=
    ⟨_, rfl⟩
  have hfails : ∀ d, denote plan ≠ .ok d := by
    rintro d hd
    cases hplan
    have hright : ∀ {schema : Schema} {n : ℕ} {bc : Bool} {dx : PlanMeaning ℚ},
        denote (.exchangeExec (.scanExec (rowsDataset schema (intRows ["a"] [[[.int longInt]]]))
          "memory") n (["a"].map .column) bc none) = .ok dx → False := by
      intro schema n bc dx hx
      have hprints := keyPrints_of_denote (denotedRows_scan _ _ _)
        (List.forall_mem_singleton.mpr
        (List.forall_mem_singleton.mpr ⟨.int longInt, rfl⟩)) hx
      exact not_keyPrints_longInt rfl (hprints _ (List.mem_singleton_self _))
    cases broadcast with
    | true =>
        obtain ⟨dl, -, hd⟩ := ExceptList.bind_eq_ok.mp hd
        obtain ⟨dr, hr, -⟩ := ExceptList.bind_eq_ok.mp hd
        exact hright hr
    | false =>
        obtain ⟨dl, -, hd⟩ := ExceptList.bind_eq_ok.mp hd
        obtain ⟨dr, hr, -⟩ := ExceptList.bind_eq_ok.mp hd
        exact hright hr
  obtain ⟨stages, hstages, hrun⟩ := runPlan_fails hplan hfails 0 "root" (fun _ => none)
  exact ⟨plan, stages, hplan, hstages, hrun⟩

theorem longKey_stops_join :
    (∃ plan stages, translate 2 neverSpill (longKeyJoin false) = .ok plan ∧
      buildStages plan = .ok stages ∧
      ∀ dataset, runPlan 0 executeTask "root" stages (fun _ => none) ≠ .ok dataset) ∧
    ∃ plan stages, translate 2 neverSpill (longKeyJoin true) = .ok plan ∧
      buildStages plan = .ok stages ∧
      ∀ dataset, runPlan 0 executeTask "root" stages (fun _ => none) ≠ .ok dataset :=
  ⟨longKeyJoin_stops false, longKeyJoin_stops true⟩

end Examples

end MiniSpark
