import MiniSpark.RecoverySafety

/-!
# Recovery and retry are safe

Stage after stage of a run keeps the invariant. A run that returns has computed
what its stages compute, so it returns what a run without failure or loss returns.
-/
namespace MiniSpark

variable {F : Type} [PyRuntime F] [PyHost F] {W : Type}

section Runs

omit [PyRuntime F] [PyHost F] in
/-- In a list numbered from `k`, the position gives the id. -/
lemma NumberedFrom.getElem? {k j : ℕ} {stages : List (Stage F)} {stage : Stage F}
    (h : NumberedFrom k stages) (hj : stages[j]? = some stage) :
    stage.stageId = k + j ∧ stage.plan.readIds.Nodup := by
  induction stages generalizing k j with
  | nil => simp at hj
  | cons head stages ih =>
      obtain ⟨hid, hnd, hrest⟩ := h
      cases j with
      | zero =>
          obtain rfl : head = stage := by simpa using hj
          exact ⟨hid, hnd⟩
      | succ j =>
          have hstage := ih hrest (by simpa using hj)
          exact ⟨by omega, hstage.2⟩

/-- Every stage that has run has its output among the outputs. -/
lemma StagesYield.finished {outs outs' : List (Written F)} {stages : List (Stage F)}
    (h : StagesYield outs stages outs') {j : ℕ} {stage : Stage F} (hj : stages[j]? = some stage) :
    ∃ w read, outs'[outs.length + j]? = some w ∧ ReadsFrom outs' stage.plan read ∧
      (List.range stage.numPartitions).mapM (taskOutput read stage.plan) = .ok w := by
  induction h generalizing j with
  | nil outs => simp at hj
  | @cons outs outs' head stages w read reads tasks rest ih =>
      have hpre := rest.isPrefix
      cases j with
      | zero =>
          obtain rfl : head = stage := by simpa using hj
          refine ⟨w, read, ?_, reads.of_subset (fun p hp => hp)
            ((List.prefix_append _ _).trans hpre), tasks⟩
          obtain ⟨t, rfl⟩ := hpre
          simp
      | succ j =>
          obtain ⟨w', read', hw', hreads, htasks⟩ := ih (by simpa using hj)
          refine ⟨w', read', ?_, hreads, htasks⟩
          rw [← hw', List.length_append, List.length_singleton]
          congr 1
          omega

/-- The stages a plan is split into: numbered by position, each reading earlier ones. -/
structure Ordered (stages : List (Stage F)) : Prop where
  numbered : NumberedFrom 0 stages
  earlier : ∀ stage ∈ stages, ∀ i ∈ stage.plan.readIds, i < stage.stageId

namespace Ordered

variable {stages pre rest : List (Stage F)} {outs : List (Written F)}

lemma stageOk (h : Ordered (pre ++ rest)) (hy : StagesYield [] pre outs) {stage : Stage F}
    (hstage : stage ∈ pre ++ rest) : StageOk outs stage := by
  obtain ⟨j, hj⟩ := List.mem_iff_getElem?.mp hstage
  obtain ⟨hid, hnd⟩ := h.numbered.getElem? hj
  refine ⟨hnd, h.earlier stage hstage, fun w hw => ?_⟩
  have hlen := hy.length_eq
  have hlt := (List.getElem?_eq_some_iff.mp hw).1
  rw [List.length_nil] at hlen
  rw [List.getElem?_append_left (by omega)] at hj
  obtain ⟨w', read, hw', hreads, htasks⟩ := hy.finished hj
  have hpos : ([] : List (Written F)).length + j = stage.stageId := by
    rw [List.length_nil]
    omega
  rw [hpos] at hw'
  obtain rfl : w' = w := Option.some.inj (hw'.symm.trans hw)
  exact ⟨read, hreads, htasks⟩

omit [PyRuntime F] [PyHost F] in
lemma ids_nodup (h : Ordered stages) :
    ((stages.map (fun st => (st.stageId, st))).map Prod.fst).Nodup := by
  rw [List.map_map, List.nodup_iff_getElem?_ne_getElem?]
  intro j k hjk hk heq
  rw [List.length_map] at hk
  rw [List.getElem?_map, List.getElem?_map, List.getElem?_eq_getElem hk,
    List.getElem?_eq_getElem (by omega), Option.map_some, Option.map_some,
    Option.some.injEq] at heq
  have hj := (h.numbered.getElem? (List.getElem?_eq_getElem (by omega : j < stages.length))).1
  have hk := (h.numbered.getElem? (List.getElem?_eq_getElem hk)).1
  simp only [Function.comp_apply] at heq
  omega

omit [PyRuntime F] [PyHost F] in
/-- The stages a scheduler knows are those of the list. -/
lemma mem_of_stagesById (h : Ordered stages) {i : ℕ} {stage : Stage F}
    (hget : (OrderedDict.ofList (stages.map (fun st => (st.stageId, st)))).get? i = some stage) :
    stage ∈ stages := by
  rw [OrderedDict.get?_eq_some_iff,
    OrderedDict.items_ofList _ (OrderedDict.distinct_keys_iff.mpr h.ids_nodup)] at hget
  obtain ⟨st, hst, heq⟩ := List.mem_map.mp hget
  cases heq
  exact hst

/-- What the next stage should read has been written. -/
lemma readsFrom {stage : Stage F} (h : Ordered (pre ++ stage :: rest)) (hy : StagesYield [] pre outs) :
    stage.stageId = outs.length ∧ stage.plan.readIds.Nodup ∧
      ∃ read, ReadsFrom outs stage.plan read := by
  have hj : (pre ++ stage :: rest)[pre.length]? = some stage := by simp
  obtain ⟨hid, hnd⟩ := h.numbered.getElem? hj
  have hlen := hy.length_eq
  rw [List.length_nil] at hlen
  refine ⟨by omega, hnd, exists_readsFrom outs hnd (fun i hi => ?_)⟩
  have := h.earlier stage (by simp) i hi
  omega

end Ordered

variable {s : Scheduler F W} {disk : W → Disk F} {rounds depth : ℕ}

/-- The write stages of a run that gets past them. -/
theorem runWrites_safe (hrun : Unreliable s.runTask disk) {pre rest suffix : List (Stage F)}
    (hstages : s.stagesById = OrderedDict.ofList
      ((pre ++ rest ++ suffix).map (fun st => (st.stageId, st))))
    (hall : Ordered (pre ++ rest ++ suffix))
    (hwrite : ∀ stage ∈ rest, stage.plan.isShuffleWrite = true) {outs : List (Written F)}
    {final final' : Option (Dataset F)} {st st' : RunState W} (hy : StagesYield [] pre outs)
    (hinv : RunInv s.rootDir disk outs st)
    (h : rest.foldlM (s.runNext rounds depth) (final, st) = .ok (final', st')) :
    final' = final ∧ ∃ outs', StagesYield [] (pre ++ rest) outs' ∧ RunInv s.rootDir disk outs' st' := by
  induction rest generalizing pre outs final st with
  | nil =>
      cases h
      exact ⟨rfl, outs, by rwa [List.append_nil], hinv⟩
  | cons stage rest ih =>
      rw [List.foldlM_cons] at h
      obtain ⟨⟨final₁, st₁⟩, hstep, hrest⟩ := ExceptList.bind_eq_ok.mp h
      obtain ⟨⟨results, st₂⟩, hstage, hstep⟩ := ExceptList.bind_eq_ok.mp hstep
      have hw := hwrite stage List.mem_cons_self
      simp only [hw, if_true, ExceptList.pure_eq_ok, Except.ok.injEq, Prod.mk.injEq] at hstep
      obtain ⟨rfl, rfl⟩ := hstep
      have hlist : pre ++ stage :: rest ++ suffix = pre ++ stage :: (rest ++ suffix) := by simp
      have hsplit : Ordered (pre ++ stage :: (rest ++ suffix)) := hlist ▸ hall
      obtain ⟨hid, hnd, read, hread⟩ := hsplit.readsFrom hy
      have hok : ∀ stage' ∈ pre ++ stage :: (rest ++ suffix), StageOk outs stage' :=
        fun stage' hmem => hsplit.stageOk hy hmem
      obtain ⟨hinv₂, -, hdelivers⟩ := runStage_safe hrun (fun i stage' hget => by
        rw [hstages, hlist] at hget
        exact hok stage' (hsplit.mem_of_stagesById hget)) (hok stage (by simp)) hinv hstage
      obtain ⟨written, htasks, hd, hregistered⟩ := hdelivers read hread
      have hinv' : RunInv s.rootDir disk (outs ++ [written]) st₂ := by
        refine ⟨fun i w hi => ?_, hinv₂.placed⟩
        obtain ⟨-, hi⟩ | ⟨rfl, rfl⟩ := getElem?_snoc hi
        · exact hinv₂.represents i w hi
        · rw [← hid, hregistered hw, Option.getD_some]
          exact hd.stored hw
      have hy' : StagesYield [] (pre ++ [stage]) (outs ++ [written]) :=
        hy.append (.cons hread htasks (.nil _))
      have hnext : pre ++ stage :: rest = pre ++ [stage] ++ rest := by simp
      have hall' : Ordered (pre ++ [stage] ++ rest ++ suffix) := by
        rw [← hnext]
        exact hall
      have hresult := ih (by rw [hstages, hnext]) hall'
        (fun stage' hmem => hwrite stage' (List.mem_cons_of_mem _ hmem)) hy' hinv' hrest
      rwa [← hnext] at hresult

omit [PyRuntime F] [PyHost F] in
/-- Stages of a plan read earlier stages only. -/
lemma split_earlier {plan : PhysicalPlan F} {stages stages' : List (Stage F)}
    {fragment : Fragment F} (h : split plan stages = .ok (fragment, stages'))
    (hs : ∀ stage ∈ stages, ∀ i ∈ stage.plan.readIds, i < stage.stageId) :
    ∀ stage ∈ stages', ∀ i ∈ stage.plan.readIds, i < stage.stageId := by
  induction plan generalizing stages stages' fragment with
  | scanExec dataset sourceName =>
      cases h
      exact hs
  | filterExec child condition ih =>
      obtain ⟨⟨f, s⟩, hc, h⟩ := ExceptList.bind_eq_ok.mp h
      cases h
      exact ih hc hs
  | projectExec child columns schema ih =>
      obtain ⟨⟨f, s⟩, hc, h⟩ := ExceptList.bind_eq_ok.mp h
      cases h
      exact ih hc hs
  | hashAggregateExec child spec ih =>
      obtain ⟨⟨f, s⟩, hc, h⟩ := ExceptList.bind_eq_ok.mp h
      cases h
      exact ih hc hs
  | sortExec child spec ih =>
      obtain ⟨⟨f, s⟩, hc, h⟩ := ExceptList.bind_eq_ok.mp h
      cases h
      exact ih hc hs
  | exchangeExec child n exprs bc rb ih =>
      obtain ⟨⟨f, s⟩, hc, h⟩ := ExceptList.bind_eq_ok.mp h
      cases h
      intro stage hstage
      obtain hstage | hstage := List.mem_append.mp hstage
      · exact ih hc hs stage hstage
      · obtain rfl := List.mem_singleton.mp hstage
        exact fun i hi => ((split_splitsTo hc).fresh i hi).2
  | shuffleWriteExec child n exprs rb ih =>
      obtain ⟨⟨f, s⟩, hc, h⟩ := ExceptList.bind_eq_ok.mp h
      simp only at h
      split at h
      · cases h
        exact ih hc hs
      · cases h
  | shuffleReadExec stageId schema bc => cases h
  | hashJoinExec left right lk rk on schema ihl ihr =>
      obtain ⟨⟨f, s⟩, hl, h⟩ := ExceptList.bind_eq_ok.mp h
      obtain ⟨⟨g, t⟩, hr, h⟩ := ExceptList.bind_eq_ok.mp h
      cases h
      exact ihr hr (ihl hl hs)

omit [PyRuntime F] [PyHost F] in
/-- The stages of a plan are write stages and a last one. -/
theorem buildStages_ordered {plan : PhysicalPlan F} {stages : List (Stage F)}
    (hb : buildStages plan = .ok stages) :
    ∃ writes last, stages = writes ++ [last] ∧ WriteStages writes ∧ Ordered (writes ++ [last]) ∧
      last.stageId = writes.length ∧ last.plan.schema = plan.schema := by
  obtain ⟨⟨fragment, writes⟩, hsplit, h⟩ := ExceptList.bind_eq_ok.mp hb
  cases h
  have hs := split_splitsTo hsplit
  have hw : WriteStages writes := split_writeStages hsplit ⟨trivial, by simp⟩
  refine ⟨writes, _, rfl, hw, ⟨?_, fun stage hstage => ?_⟩, rfl, (split_root hsplit).1⟩
  · rw [numberedFrom_append]
    exact ⟨hw.1, (Nat.zero_add _).symm, hs.nodup, trivial⟩
  · obtain hstage | hstage := List.mem_append.mp hstage
    · exact split_earlier hsplit (by simp) stage hstage
    · obtain rfl := List.mem_singleton.mp hstage
      exact fun i hi => (hs.fresh i hi).2

/-- A run that returns has computed what its stages compute, whatever failed on the way. -/
theorem runPlan_safe {plan : PhysicalPlan F} {stages : List (Stage F)} {dataset : Dataset F}
    {runTask : Task F → ℕ → W → TaskResult F × W} {maxRetries : ℕ} {root : String} {w : W}
    (hrun : Unreliable runTask disk) (hb : buildStages plan = .ok stages)
    (h : runPlan maxRetries runTask root stages w = .ok dataset) :
    ∃ parts, StagesReturn stages plan.schema parts ∧ dataset = rowsDataset plan.schema parts := by
  obtain ⟨writes, last, rfl, hw, hall, hid, hschema⟩ := buildStages_ordered hb
  obtain ⟨⟨final, st⟩, hrunAll, h⟩ := ExceptList.bind_eq_ok.mp h
  rw [runAllStages, Scheduler.runStages, List.foldlM_append] at hrunAll
  obtain ⟨⟨final₁, st₁⟩, hwrites, hlast⟩ := ExceptList.bind_eq_ok.mp hrunAll
  have hstart : RunInv root disk [] (Scheduler.startState w) :=
    ⟨fun i w' hi => by simp at hi, fun i b hb => by simp [Scheduler.startState] at hb⟩
  have hlist : [] ++ writes ++ [last] = writes ++ [last] := by simp
  obtain ⟨rfl, outs, hy, hinv⟩ := runWrites_safe hrun (by rw [hlist]; rfl) (by rwa [hlist]) hw.2
    (.nil _) hstart hwrites
  rw [List.nil_append] at hy
  rw [List.foldlM_cons] at hlast
  obtain ⟨⟨final₂, st₂⟩, hstep, hnil⟩ := ExceptList.bind_eq_ok.mp hlast
  cases hnil
  obtain ⟨⟨results, st₃⟩, hstage, hstep⟩ := ExceptList.bind_eq_ok.mp hstep
  cases hstep
  obtain ⟨-, hnd, read, hread⟩ := hall.readsFrom hy
  have hok : ∀ stage ∈ writes ++ [last], StageOk outs stage := fun stage hmem => hall.stageOk hy hmem
  obtain ⟨-, -, hdelivers⟩ := runStage_safe hrun
    (fun i stage hget => hok stage (hall.mem_of_stagesById hget)) (hok last (by simp)) hinv hstage
  obtain ⟨written, htasks, hd, -⟩ := hdelivers read hread
  cases hnot : last.plan.isShuffleWrite with
  | true =>
      rw [hnot] at h
      cases h
  | false =>
      rw [hnot] at h
      cases h
      refine ⟨written.map (fun w => w.map Prod.snd), ⟨writes, last, outs, read, rfl, hw, hy, hid, hnd,
        hnot, hschema, hread, ?_⟩, ?_⟩
      · rw [htasks, Except.ok.injEq, List.map_map]
        refine (List.map_id _).symm.trans (List.map_congr_left (fun tagged htagged => ?_))
        obtain ⟨pid, -, hpid⟩ := Dealing.exists_partner (ExceptList.mapM_eq_ok.mp htasks) htagged
        rw [taskOutput_of_not_write hnot] at hpid
        obtain ⟨part, -, hpid⟩ := ExceptList.bind_eq_ok.mp hpid
        obtain ⟨rows, -, hpid⟩ := ExceptList.bind_eq_ok.mp hpid
        cases hpid
        simp [Function.comp_def]
      · rw [← hschema]
        refine resultsToDataset_eq (hd.rows hnot) ?_
        rw [hd.outputRecords hnot, List.map_map]
        exact List.map_congr_left (fun tagged _ => by simp)

/-- Whatever attempts fail, whatever block files are deleted or corrupted between attempts, and
however often tasks are retried: a run that returns a dataset returns the one a run with no
failure and no loss returns. -/
theorem faultyRun_returns_clean {plan : PhysicalPlan F} {stages : List (Stage F)}
    {dataset : Dataset F} {maxRetries : ℕ} {root : String} {faults : ℕ → Fault F}
    {w : FaultyWorld F} (maxRetries' : ℕ) (disk : Disk F) (hb : buildStages plan = .ok stages)
    (h : runPlan maxRetries (faultyTask faults) root stages w = .ok dataset) :
    runPlan maxRetries' executeTask root stages disk = .ok dataset := by
  obtain ⟨parts, hreturn, rfl⟩ := runPlan_safe (faultyTask_unreliable faults) hb h
  exact hreturn.runPlan maxRetries' root disk

end Runs

section Examples

/-- The first attempt fails, and the fourth finds every file deleted. -/
def lossAndCrash (attempt : ℕ) : Fault ℚ where
  files := fun _ => if attempt = 3 then some .deleted else none
  crash := if attempt = 0 then some ⟨.zeroDivisionError, fun _ => none⟩ else none

/-- Two source partitions dealt to one target. -/
def dealtTable : PhysicalPlan ℚ :=
  .exchangeExec (.scanExec (rowsDataset abSchema (intRows ["a", "b"]
    [[[.int 1, .int 2], [.none, .int 3]], [[.int 4, .int 5]]])) "memory") 1 [.column "a"] false none

/-- A retried task and a recomputed stage. -/
theorem faultyRun_returns_clean_dealt : ∃ stages dataset, buildStages dealtTable = .ok stages ∧
    runPlan 1 (faultyTask lossAndCrash) "root" stages ⟨fun _ => none, 0⟩ = .ok dataset ∧
    runPlan 0 executeTask "root" stages (fun _ => none) = .ok dataset := by
  obtain ⟨stages, hstages⟩ : ∃ stages, buildStages dealtTable = .ok stages := ⟨_, rfl⟩
  have hsome : ((buildStages dealtTable).toOption.bind (fun stages =>
      (runPlan 1 (faultyTask lossAndCrash) "root" stages ⟨fun _ => none, 0⟩).toOption)).isSome = true := by
    decide +kernel
  rw [hstages] at hsome
  cases hrun : runPlan 1 (faultyTask lossAndCrash) "root" stages ⟨fun _ => none, 0⟩ with
  | error e => simp [hrun, Except.toOption] at hsome
  | ok dataset =>
      exact ⟨stages, dataset, hstages, hrun, faultyRun_returns_clean 0 (fun _ => none) hstages hrun⟩

end Examples

end MiniSpark
