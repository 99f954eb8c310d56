import MiniSpark.Dealing
import MiniSpark.KeyKinds
import MiniSpark.PlanExecution

/-!
# What an exchange delivers

An exchange deals the rows of its child to its targets: every row goes to one
target, and a target holds its rows in the order of the source partitions. A plan
that has a meaning splits into stages and runs to that meaning.
-/
namespace MiniSpark

variable {F : Type} [PyRuntime F] [PyHost F]

/-- A scan of rows in memory yields them. -/
lemma denotedRows_scan (schema : Schema) (parts : List (List (Record F))) (sourceName : String) :
    denotedRows (.scanExec (rowsDataset schema parts) sourceName) = .ok parts := by
  rw [denotedRows, denote, ExceptList.bind_ok, ExceptList.mapM_eq_ok, List.forall₂_iff_get]
  refine ⟨by simp [rowsDataset, Dataset.numPartitions], fun i h₁ h₂ => ?_⟩
  simp [Dataset.partition, rowsDataset, rowsPartition, Partition.toList, List.getElem?_eq_getElem h₂]

section Targets

omit [PyRuntime F] [PyHost F] in
/-- Rows that all have a target are tagged with it. -/
lemma tagRows_ok {target : Record F → Py ℕ} {t : Record F → ℕ} {rows : List (Record F)}
    (h : ∀ r ∈ rows, target r = .ok (t r)) :
    tagRows target rows = .ok (rows.map (fun r => (t r, r))) := by
  refine ExceptList.mapM_ok_of_forall (fun r hr => ?_)
  rw [h r hr]
  rfl

omit [PyRuntime F] [PyHost F] in
lemma readTarget_map (t : Record F → ℕ) (parts : List (List (Record F))) (target : ℕ) :
    readTarget (parts.map (fun rows => rows.map (fun r => (t r, r)))) target =
      parts.flatten.filter (fun r => t r = target) := by
  have hflat : (parts.map (fun rows => rows.map (fun r => (t r, r)))).flatten =
      parts.flatten.map (fun r => (t r, r)) := by rw [List.map_flatten]
  rw [readTarget, hflat, List.filter_map, List.map_map]
  exact List.map_id' _

/-- The partitions of an exchange all of whose rows have a target. -/
theorem denote_exchange {child : PhysicalPlan F} {n : ℕ} {exprs : List (Expression F)}
    {isBroadcast : Bool} {rangeBoundaries : Option (List (Value F))}
    {target : Record F → Py ℕ} {t : Record F → ℕ} {parts : List (List (Record F))}
    (hd : denotedRows child = .ok parts)
    (htarget : shuffleTarget n exprs rangeBoundaries = .ok target)
    (ht : ∀ r ∈ parts.flatten, target r = .ok (t r)) :
    denote (.exchangeExec child n exprs isBroadcast rangeBoundaries) = .ok ⟨n, fun pid =>
      .ok (rowsPartition pid child.schema
        (parts.flatten.filter (fun r => t r = targetOf isBroadcast pid)))⟩ := by
  obtain ⟨d, hden, hd⟩ := ExceptList.bind_eq_ok.mp hd
  have hwritten : (List.range d.numPartitions).mapM (fun pid => do
      let part ← d.part pid
      exchangeRows n exprs rangeBoundaries part) =
      .ok (parts.map (fun rows => rows.map (fun r => (t r, r)))) := by
    obtain ⟨hlen, hpair⟩ := List.forall₂_iff_zip.mp (ExceptList.mapM_eq_ok.mp hd)
    rw [ExceptList.mapM_eq_ok, List.forall₂_map_right_iff, List.forall₂_iff_zip]
    refine ⟨hlen, fun {pid rows} hmem => ?_⟩
    obtain ⟨part, hpart, hrows⟩ := ExceptList.bind_eq_ok.mp (hpair hmem)
    simp only [hpart, ExceptList.bind_ok, exchangeRows, hrows, htarget]
    exact tagRows_ok (fun r hr => ht r (List.mem_flatten_of_mem (List.of_mem_zip hmem).2 hr))
  simp only [denote, hden, ExceptList.bind_ok, hwritten, readTarget_map, ExceptList.pure_eq_ok]

/-- The target of a row in a hash exchange by columns. -/
def hashTarget (names : List String) (p : HashPartitioner) (r : Record F) : ℕ :=
  p.textTarget (keyOf names r)

omit [PyHost F] in
/-- A hash exchange by columns finds a target for every row that has them and whose key prints. -/
lemma hashExchange_targets {names : List String} {rows : List (Record F)} {n : ℕ} (hn : 1 ≤ n)
    (h : ∀ r ∈ rows, tupleKey (names.map .column) r = .ok (keyOf names r))
    (hprints : ∀ r ∈ rows, KeyPrints names r) :
    ∃ target, shuffleTarget n (names.map (Expression.column (F := F))) none = .ok target ∧
      ∀ r ∈ rows, target r = .ok (hashTarget names ⟨n, hn⟩ r) := by
  have hmake : HashPartitioner.make n = .ok ⟨n, hn⟩ := HashPartitioner.make_eq_ok.mpr rfl
  refine ⟨_, by rw [shuffleTarget, hmake]; rfl, fun r hr => ?_⟩
  rw [h r hr, ExceptList.bind_ok]
  exact HashPartitioner.partitionFor_of_prints (hprints r hr)

/-- An exchange by hash has a meaning only where every key prints. -/
theorem keyPrints_of_denote {child : PhysicalPlan F} {names : List String} {n : ℕ}
    {isBroadcast : Bool} {parts : List (List (Record F))} {d : PlanMeaning F}
    (hd : denotedRows child = .ok parts)
    (hcolumns : ∀ r ∈ parts.flatten, ∀ name ∈ names, ∃ v, r.get? name = some v)
    (h : denote (.exchangeExec child n (names.map .column) isBroadcast none) = .ok d) :
    ∀ r ∈ parts.flatten, KeyPrints names r := by
  obtain ⟨dc, hden, hd⟩ := ExceptList.bind_eq_ok.mp hd
  obtain ⟨dc', hden', h⟩ := ExceptList.bind_eq_ok.mp h
  obtain rfl : dc = dc' := Except.ok.inj (hden.symm.trans hden')
  obtain ⟨written, hwritten, -⟩ := ExceptList.bind_eq_ok.mp h
  intro r hr
  obtain ⟨rows, hrows, hmem⟩ := List.mem_flatten.mp hr
  obtain ⟨pid, hpid, hread⟩ := Dealing.exists_partner (ExceptList.mapM_eq_ok.mp hd) hrows
  obtain ⟨part, hpart, hlist⟩ := ExceptList.bind_eq_ok.mp hread
  -- the task of that partition has found a target for the row
  obtain ⟨tagged, -, hwrite⟩ := Dealing.exists_partner (ExceptList.mapM_eq_ok.mp hwritten).flip hpid
  rw [hpart, ExceptList.bind_ok, exchangeRows, hlist, ExceptList.bind_ok] at hwrite
  obtain ⟨target, htarget, htagged⟩ := ExceptList.bind_eq_ok.mp hwrite
  obtain ⟨p, -, hpure⟩ := ExceptList.bind_eq_ok.mp htarget
  cases hpure
  obtain ⟨_, -, hrow⟩ := Dealing.exists_partner (ExceptList.mapM_eq_ok.mp htagged).flip hmem
  obtain ⟨t, ht, -⟩ := ExceptList.bind_eq_ok.mp hrow
  dsimp only at ht
  rw [tupleKey_columns (hcolumns r hr), ExceptList.bind_ok, HashPartitioner.partitionFor_eq_ok] at ht
  exact ht.1

end Targets

section Runs

/-- A plan that has a meaning can be split. -/
lemma split_ok {plan : PhysicalPlan F} {d : PlanMeaning F} (h : denote plan = .ok d)
    (stages : List (Stage F)) : ∃ fragment stages', split plan stages = .ok (fragment, stages') := by
  induction plan generalizing stages d with
  | scanExec dataset sourceName => exact ⟨_, _, rfl⟩
  | filterExec child condition ih =>
      obtain ⟨c, hc, -⟩ := ExceptList.bind_eq_ok.mp h
      obtain ⟨f, s, hs⟩ := ih hc stages
      exact ⟨_, _, by rw [split, hs]; rfl⟩
  | projectExec child columns schema ih =>
      obtain ⟨c, hc, -⟩ := ExceptList.bind_eq_ok.mp h
      obtain ⟨f, s, hs⟩ := ih hc stages
      exact ⟨_, _, by rw [split, hs]; rfl⟩
  | hashAggregateExec child spec ih =>
      obtain ⟨c, hc, -⟩ := ExceptList.bind_eq_ok.mp h
      obtain ⟨f, s, hs⟩ := ih hc stages
      exact ⟨_, _, by rw [split, hs]; rfl⟩
  | sortExec child spec ih =>
      obtain ⟨c, hc, -⟩ := ExceptList.bind_eq_ok.mp h
      obtain ⟨f, s, hs⟩ := ih hc stages
      exact ⟨_, _, by rw [split, hs]; rfl⟩
  | exchangeExec child n exprs bc rb ih =>
      obtain ⟨c, hc, -⟩ := ExceptList.bind_eq_ok.mp h
      obtain ⟨f, s, hs⟩ := ih hc stages
      exact ⟨_, _, by rw [split, hs]; rfl⟩
  | hashJoinExec left right lk rk on schema ihl ihr =>
      obtain ⟨l, hl, h⟩ := ExceptList.bind_eq_ok.mp h
      obtain ⟨r, hr, -⟩ := ExceptList.bind_eq_ok.mp h
      obtain ⟨f, s, hs⟩ := ihl hl stages
      obtain ⟨g, t, ht⟩ := ihr hr s
      exact ⟨_, _, by simp only [split, hs, ExceptList.bind_ok, ht]; rfl⟩
  | shuffleWriteExec child n exprs rb ih => cases h
  | shuffleReadExec stageId schema bc => cases h

/-- A plan that has a meaning is built and runs to it. -/
theorem runPlan_of_denotedRows {plan : PhysicalPlan F} {parts : List (List (Record F))}
    (hd : denotedRows plan = .ok parts) (maxRetries : ℕ) (root : String) (disk : Disk F) :
    ∃ stages, buildStages plan = .ok stages ∧
      runPlan maxRetries executeTask root stages disk = .ok (rowsDataset plan.schema parts) := by
  obtain ⟨d, hden, -⟩ := ExceptList.bind_eq_ok.mp hd
  obtain ⟨fragment, stages, hs⟩ := split_ok hden []
  have hb : buildStages plan =
      .ok (stages ++ [⟨stages.length, fragment.plan, fragment.numPartitions⟩]) := by
    rw [buildStages, hs]
    rfl
  exact ⟨_, hb, runPlan_denotes maxRetries root disk hb hd⟩

end Runs

end MiniSpark
