import MiniSpark.StageExecution

/-!
# A run without loss computes the plan

Stage by stage, what the manager has registered holds what the stages mean. The
last stage returns its rows, so `run_plan` on the stages of a plan returns the
partitions the plan stands for.
-/
namespace MiniSpark

variable {F : Type} [PyRuntime F] [PyHost F] {W : Type}

section Numbering

lemma getElem?_snoc {α : Type} {l : List α} {a b : α} {i : ℕ} (h : (l ++ [a])[i]? = some b) :
    (i < l.length ∧ l[i]? = some b) ∨ (i = l.length ∧ b = a) := by
  rw [List.getElem?_append] at h
  split at h
  · next hlt => exact Or.inl ⟨hlt, h⟩
  · obtain ⟨hi, rfl⟩ := List.getElem?_eq_some_iff.mp h
    rw [List.length_singleton] at hi
    exact Or.inr ⟨by omega, by simp⟩

/-- Stage ids are list positions counted from `k`, and no stage reads another twice. -/
def NumberedFrom : ℕ → List (Stage F) → Prop
  | _, [] => True
  | k, stage :: stages =>
      stage.stageId = k ∧ stage.plan.readIds.Nodup ∧ NumberedFrom (k + 1) stages

omit [PyRuntime F] [PyHost F] in
lemma numberedFrom_append {k : ℕ} {stages stages' : List (Stage F)} :
    NumberedFrom k (stages ++ stages') ↔
      NumberedFrom k stages ∧ NumberedFrom (k + stages.length) stages' := by
  induction stages generalizing k with
  | nil => simp [NumberedFrom]
  | cons stage stages ih =>
      rw [List.cons_append, NumberedFrom, NumberedFrom, ih, List.length_cons, and_assoc, and_assoc,
        Nat.add_assoc, Nat.add_comm 1]

omit [PyRuntime F] [PyHost F] in
lemma NumberedFrom.stageId_getElem {k : ℕ} {stages : List (Stage F)} (h : NumberedFrom k stages)
    (i : ℕ) (hi : i < stages.length) : stages[i].stageId = k + i := by
  induction stages generalizing k i with
  | nil => exact absurd hi (Nat.not_lt_zero i)
  | cons stage stages ih =>
      obtain ⟨hid, -, hrest⟩ := h
      cases i with
      | zero => exact hid
      | succ i =>
          have := ih hrest i (Nat.lt_of_succ_lt_succ hi)
          rw [List.getElem_cons_succ, this]
          omega

/-- Write stages numbered by their positions. -/
def WriteStages (stages : List (Stage F)) : Prop :=
  NumberedFrom 0 stages ∧ ∀ stage ∈ stages, stage.plan.isShuffleWrite = true

omit [PyRuntime F] [PyHost F] in
lemma split_writeStages {plan : PhysicalPlan F} {stages stages' : List (Stage F)}
    {fragment : Fragment F} (h : split plan stages = .ok (fragment, stages'))
    (hs : WriteStages stages) : WriteStages stages' := by
  induction plan generalizing stages stages' fragment with
  | scanExec dataset sourceName =>
      cases h
      exact hs
  | filterExec child condition ih =>
      obtain ⟨⟨f, s⟩, hc, h⟩ := ExceptList.bind_eq_ok.mp h
      cases h
      exact ih hc hs
  | projectExec child columns schema ih =>
      obtain ⟨⟨f, s⟩, hc, h⟩ := ExceptList.bind_eq_ok.mp h
      cases h
      exact ih hc hs
  | hashAggregateExec child spec ih =>
      obtain ⟨⟨f, s⟩, hc, h⟩ := ExceptList.bind_eq_ok.mp h
      cases h
      exact ih hc hs
  | sortExec child spec ih =>
      obtain ⟨⟨f, s⟩, hc, h⟩ := ExceptList.bind_eq_ok.mp h
      cases h
      exact ih hc hs
  | exchangeExec child n exprs bc rb ih =>
      obtain ⟨⟨f, s⟩, hc, h⟩ := ExceptList.bind_eq_ok.mp h
      cases h
      obtain ⟨hs', hw'⟩ := ih hc hs
      refine ⟨numberedFrom_append.mpr ⟨hs', (Nat.zero_add _).symm, (split_splitsTo hc).nodup,
        trivial⟩, ?_⟩
      intro stage hstage
      cases List.mem_append.mp hstage with
      | inl hmem => exact hw' stage hmem
      | inr hmem =>
          obtain rfl := List.mem_singleton.mp hmem
          rfl
  | shuffleWriteExec child n exprs rb ih =>
      obtain ⟨⟨f, s⟩, hc, h⟩ := ExceptList.bind_eq_ok.mp h
      simp only at h
      split at h
      · cases h
        exact ih hc hs
      · cases h
  | shuffleReadExec stageId schema bc => cases h
  | hashJoinExec left right lk rk on schema ihl ihr =>
      obtain ⟨⟨f, s⟩, hl, h⟩ := ExceptList.bind_eq_ok.mp h
      obtain ⟨⟨g, t⟩, hr, h⟩ := ExceptList.bind_eq_ok.mp h
      cases h
      exact ihr hr (ihl hl hs)

end Numbering

section WriteStages

/-- The number of tasks of a list of stages. -/
def taskCount (stages : List (Stage F)) : ℕ := (stages.map Stage.numPartitions).sum

omit [PyRuntime F] [PyHost F] in
lemma taskCount_cons (stage : Stage F) (stages : List (Stage F)) :
    taskCount (stage :: stages) = stage.numPartitions + taskCount stages := by
  simp [taskCount]

/-- What a run has reached when the manager holds the outputs of the first stages, each
written by tasks numbered from `first` on. -/
structure Reached (root : String) (disk : W → Disk F) (lost : Path → Prop)
    (outs : List (Written F)) (first : ℕ → ℕ) (st : RunState W) : Prop where
  registered : ∀ i w, outs[i]? = some w →
    st.manager.get? i = some (stageBlocks root i (first i) w)
  unregistered : ∀ i, outs.length ≤ i → st.manager.get? i = none
  represents : Represents lost (disk st.world) st.manager outs
  placed : Placed root st.nextTaskId st.manager

/-- The first task of each stage when the stages from position `k` on are run now. -/
def firstFrom (first : ℕ → ℕ) (k next : ℕ) (rest : List (Stage F)) (i : ℕ) : ℕ :=
  if i < k then first i else next + taskCount (rest.take (i - k))

/-- No stage reads a stage with lost files. -/
def ReadsKept (root : String) (lost : Path → Prop) (stages : List (Stage F)) : Prop :=
  ∀ stage ∈ stages, ∀ i ∈ stage.plan.readIds, ∀ task p, TaskFile root i task p → ¬ lost p

omit [PyRuntime F] [PyHost F] in
lemma ReadsKept.inputKept {root : String} {lost : Path → Prop} {stages : List (Stage F)}
    {stage : Stage F} {next : ℕ} {manager : ShuffleManager} (h : ReadsKept root lost stages)
    (hstage : stage ∈ stages) (hp : Placed root next manager) (pid : ℕ) :
    InputKept lost manager stage.plan pid := by
  intro p hread b hb
  obtain ⟨task, -, hfile⟩ := hp p.1 b (List.mem_of_mem_filter hb)
  exact h stage hstage p.1 (List.mem_map_of_mem hread) task b.path hfile

/-- Tasks that have started later disturb nothing. -/
theorem Reached.frame {root : String} {disk : W → Disk F} {lost : Path → Prop}
    {outs : List (Written F)} {first : ℕ → ℕ} {st st' : RunState W}
    (h : Reached root disk lost outs first st) (hmanager : st'.manager = st.manager)
    (hnext : st.nextTaskId ≤ st'.nextTaskId)
    (hd : AgreeBelow root lost st.nextTaskId (disk st.world) (disk st'.world)) :
    Reached root disk lost outs first st' where
  registered i w hi := by rw [hmanager, h.registered i w hi]
  unregistered i hi := by rw [hmanager, h.unregistered i hi]
  represents := by
    rw [hmanager]
    exact h.represents.frame h.placed hd
  placed i b hb := by
    rw [hmanager] at hb
    obtain ⟨task, hlt, hfile⟩ := h.placed i b hb
    exact ⟨task, by omega, hfile⟩

/-- Registering what a write stage has stored, whether the stage is new or run again. -/
theorem Reached.register {root : String} {disk : W → Disk F} {lost : Path → Prop}
    {outs outs' : List (Written F)} {first : ℕ → ℕ} {st : RunState W} {stage : Stage F}
    {results : List (TaskResult F)} {written : Written F} {n : ℕ} (recomputed : Bool) (retried : ℕ)
    (h : Reached root disk lost outs first st) (hwrite : stage.plan.isShuffleWrite = true)
    (hblocks : results.flatMap TaskResult.shuffleBlocks = stageBlocks root stage.stageId n written)
    (hstored : Stored lost (disk st.world) (results.flatMap TaskResult.shuffleBlocks) written)
    (hn : n + written.length ≤ st.nextTaskId) (hid : stage.stageId < outs'.length)
    (hlen : outs.length ≤ outs'.length)
    (houts : ∀ i w, outs'[i]? = some w →
      i = stage.stageId ∧ w = written ∨ i ≠ stage.stageId ∧ outs[i]? = some w) :
    Reached root disk lost outs' (fun i => if i = stage.stageId then n else first i)
      (Scheduler.finishStage stage recomputed results retried st) := by
  have hmanager : ∀ i, (st.manager.registerBlocks stage.stageId
      (results.flatMap TaskResult.shuffleBlocks)).get? i =
      if i = stage.stageId then some (stageBlocks root stage.stageId n written)
      else st.manager.get? i := by
    intro i
    rw [ShuffleManager.registerBlocks, OrderedDict.get?_set, hblocks]
    by_cases hi : i = stage.stageId
    · simp [hi]
    · rw [if_neg hi, if_neg (by simpa using Ne.symm hi)]
  simp only [Scheduler.finishStage, hwrite, if_true]
  exact {
    registered := by
      intro i w hi
      rw [hmanager]
      obtain ⟨rfl, rfl⟩ | ⟨hne, hi⟩ := houts i w hi
      · simp
      · rw [if_neg hne, if_neg hne, h.registered i w hi]
    unregistered := by
      intro i hi
      rw [hmanager, if_neg (by omega), h.unregistered i (by omega)]
    represents := by
      intro i w hi
      rw [hmanager]
      obtain ⟨rfl, rfl⟩ | ⟨hne, hi⟩ := houts i w hi
      · rw [if_pos rfl, Option.getD_some, ← hblocks]
        exact hstored
      · rw [if_neg hne]
        exact h.represents i w hi
    placed := by
      intro i b hb
      rw [hmanager] at hb
      split at hb
      · next heq =>
          obtain ⟨task, -, hlt, hfile⟩ := stageBlocks_file b hb
          exact ⟨task, by simp only; omega, heq ▸ hfile⟩
      · exact h.placed i b hb }

/-- The tasks of a stage are new ones. -/
lemma BatchYields.agreeBelow {s : Scheduler F W} {lost : Path → Prop} {write : Bool}
    {stage : Stage F} {st : RunState W} {written : Written F} {results : List (TaskResult F)}
    {d d' : Disk F} (h : BatchYields lost s.rootDir write
      ((s.makeTasks stage st).map (fun t => (t, 0))) written d results d') :
    AgreeBelow s.rootDir lost st.nextTaskId d d' := by
  intro p hlost hfuture
  refine h.frame p hlost (fun e he hfile => hfuture ?_)
  obtain ⟨t, ht, rfl⟩ := List.mem_map.mp he
  obtain ⟨pid, -, rfl⟩ := List.mem_map.mp ht
  exact ⟨_, _, Nat.le_add_right _ _, hfile⟩

/-- Completing one more write stage. -/
theorem Reached.snoc {s : Scheduler F W} {disk : W → Disk F} {lost : Path → Prop}
    (rounds depth : ℕ) {stage : Stage F} {outs : List (Written F)} {first : ℕ → ℕ}
    {written : Written F} {st : RunState W} {read : ℕ → ℕ → Py (List (Record F))}
    (h : Reached s.rootDir disk lost outs first st) (hs : Executes s disk lost)
    (hid : stage.stageId = outs.length) (hnd : stage.plan.readIds.Nodup)
    (hwrite : stage.plan.isShuffleWrite = true) (hread : ReadsFrom outs stage.plan read)
    (hkept : ReadsKept s.rootDir lost [stage])
    (htasks : (List.range stage.numPartitions).mapM (taskOutput read stage.plan) = .ok written) :
    ∃ results st', s.runStage (rounds + 1) (depth + 1) stage false st = .ok (results, st') ∧
      Reached s.rootDir disk lost (outs ++ [written])
        (fun i => if i = outs.length then st.nextTaskId else first i) st' ∧
      st'.nextTaskId = st.nextTaskId + stage.numPartitions ∧
      st'.recomputedStages = st.recomputedStages ∧
      st'.world = (s.runBatch ((s.makeTasks stage st).map (fun t => (t, 0))) st.world).2 := by
  obtain ⟨results, w', rfl, hrun, hy⟩ := runStage_yields rounds depth false hs h.represents h.placed
    hnd hread (fun pid _ => hkept.inputKept (by simp) h.placed pid) htasks
  have hwlen : written.length = stage.numPartitions := by
    simpa using ExceptList.mapM_length htasks
  rw [hwrite] at hy
  have hblocks : results.flatMap TaskResult.shuffleBlocks =
      stageBlocks s.rootDir stage.stageId st.nextTaskId written := by
    rw [hy.blocks, if_pos rfl, stageBlocks_eq s stage st hwlen]
  refine ⟨results, _, hrun, ?_, rfl, rfl, rfl⟩
  rw [← hid]
  refine Reached.register false 0 (h.frame rfl (Nat.le_add_right _ _) hy.agreeBelow) hwrite hblocks
    (hy.stored rfl) (by simp only; omega) (by simp [hid]) (by simp) (fun i w hi => ?_)
  obtain ⟨hlt, hi⟩ | ⟨rfl, rfl⟩ := getElem?_snoc hi
  · exact Or.inr ⟨by omega, hi⟩
  · exact Or.inl ⟨hid.symm, rfl⟩

/-- Running write stages none of which reads a lost file reaches their meaning, and keeps what
the batches of these stages keep of the world. -/
theorem runNext_reaches {s : Scheduler F W} {disk : W → Disk F} {lost : Path → Prop}
    (rounds depth : ℕ) {stages : List (Stage F)} {outs outs' : List (Written F)}
    {first : ℕ → ℕ} (final : Option (Dataset F)) {st : RunState W} (J : ℕ → W → Prop)
    (h : Reached s.rootDir disk lost outs first st) (hy : StagesYield outs stages outs')
    (hn : NumberedFrom outs.length stages) (hw : ∀ stage ∈ stages, stage.plan.isShuffleWrite = true)
    (hs : Executes s disk lost) (hkept : ReadsKept s.rootDir lost stages)
    (hJ : J st.nextTaskId st.world)
    (hstep : ∀ stage ∈ stages, ∀ st : RunState W, J st.nextTaskId st.world →
      J (st.nextTaskId + stage.numPartitions)
        (s.runBatch ((s.makeTasks stage st).map (fun t => (t, 0))) st.world).2) :
    ∃ st', stages.foldlM (s.runNext (rounds + 1) (depth + 1)) (final, st) = .ok (final, st') ∧
      Reached s.rootDir disk lost outs' (firstFrom first outs.length st.nextTaskId stages) st' ∧
      st'.nextTaskId = st.nextTaskId + taskCount stages ∧
      st'.recomputedStages = st.recomputedStages ∧ J st'.nextTaskId st'.world := by
  induction hy generalizing first st with
  | nil outs =>
      refine ⟨st, rfl, { h with registered := fun i w hi => ?_ }, rfl, rfl, hJ⟩
      rw [firstFrom, if_pos (List.getElem?_eq_some_iff.mp hi).1, h.registered i w hi]
  | @cons outs outs' stage stages w read reads tasks rest ih =>
      obtain ⟨hid, hnd, hn⟩ := hn
      have hwrite := hw stage List.mem_cons_self
      obtain ⟨results, st₁, hrun, hreached, hnext, hrec, hworld⟩ := h.snoc rounds depth hs hid hnd
        hwrite reads (fun stage' h' => hkept stage' (by simp_all)) tasks
      obtain ⟨st', hrest, hreached', hnext', hrec', hJ'⟩ := ih hreached
        (by rw [List.length_append, List.length_singleton]; exact hn)
        (fun stage' h' => hw stage' (List.mem_cons_of_mem _ h'))
        (fun stage' h' => hkept stage' (List.mem_cons_of_mem _ h'))
        (by
          rw [hnext, hworld]
          exact hstep stage List.mem_cons_self st hJ)
        (fun stage' h' => hstep stage' (List.mem_cons_of_mem _ h'))
      refine ⟨st', ?_, ?_, ?_, hrec'.trans hrec, hJ'⟩
      · rw [List.foldlM_cons, Scheduler.runNext, hrun]
        simp only [ExceptList.bind_ok, ExceptList.pure_eq_ok, hwrite, if_true]
        exact hrest
      · refine { hreached' with registered := fun i w' hi => ?_ }
        rw [hreached'.registered i w' hi]
        congr 1
        rw [firstFrom, firstFrom, List.length_append, List.length_singleton, hnext]
        by_cases hlt : i < outs.length
        · rw [if_pos (by omega), if_neg (by omega), if_pos hlt]
        · rw [if_neg hlt]
          by_cases heq : i = outs.length
          · rw [if_pos (by omega), if_pos heq, heq, Nat.sub_self]
            rfl
          · rw [if_neg (by omega)]
            obtain ⟨k, rfl⟩ : ∃ k, i = outs.length + 1 + k := ⟨i - (outs.length + 1), by omega⟩
            rw [show outs.length + 1 + k - outs.length = k + 1 by omega,
              show outs.length + 1 + k - (outs.length + 1) = k by omega, List.take_succ_cons,
              taskCount_cons, Nat.add_assoc st.nextTaskId]
      · rw [hnext', hnext, taskCount_cons, Nat.add_assoc]

end WriteStages

section Runs

omit [PyRuntime F] [PyHost F] in
/-- Results that count their rows make the dataset of these rows. -/
lemma resultsToDataset_eq {schema : Schema} {results : List (TaskResult F)}
    {parts : List (List (Record F))} (hrows : results.map TaskResult.rows = parts)
    (hcounts : results.map (fun r => r.metrics.outputRecords) = parts.map List.length) :
    Scheduler.resultsToDataset schema results = rowsDataset schema parts := by
  subst hrows
  rw [List.map_map, List.map_inj_left] at hcounts
  have hparts : (Scheduler.resultsToDataset schema results).partitions =
      (rowsDataset schema (results.map TaskResult.rows)).partitions := by
    refine List.ext_getElem (by simp [Scheduler.resultsToDataset, rowsDataset]) (fun i hi _ => ?_)
    rw [Scheduler.resultsToDataset, List.length_mapIdx] at hi
    simp only [Scheduler.resultsToDataset, rowsDataset, List.getElem_mapIdx, List.getElem_map,
      rowsPartition, hcounts _ (List.getElem_mem hi), Function.comp_apply]
  rw [Scheduler.resultsToDataset, rowsDataset] at *
  simp only at hparts
  simp only [hparts]

/-- A list of stages computes these partitions: write stages feed one another, and the last
stage returns them. -/
def StagesReturn (stages : List (Stage F)) (schema : Schema) (parts : List (List (Record F))) :
    Prop :=
  ∃ writes last outs read, stages = writes ++ [last] ∧ WriteStages writes ∧
    StagesYield [] writes outs ∧ last.stageId = writes.length ∧ last.plan.readIds.Nodup ∧
    last.plan.isShuffleWrite = false ∧ last.plan.schema = schema ∧ ReadsFrom outs last.plan read ∧
    (List.range last.numPartitions).mapM (taskOutput read last.plan) =
      .ok (parts.map (fun rows => rows.map (fun r => (0, r))))

/-- The stages of a plan compute what the plan stands for. -/
theorem buildStages_means {plan : PhysicalPlan F} {stages : List (Stage F)}
    {parts : List (List (Record F))} (hb : buildStages plan = .ok stages)
    (hd : denotedRows plan = .ok parts) : StagesReturn stages plan.schema parts := by
  obtain ⟨⟨fragment, writes⟩, hsplit, h⟩ := ExceptList.bind_eq_ok.mp hb
  cases h
  obtain ⟨d, hden, hd⟩ := ExceptList.bind_eq_ok.mp hd
  obtain ⟨added, outs, hadd, hy, hn, hmeans⟩ := split_means [] hsplit rfl hden
  obtain rfl : writes = added := hadd
  have hs := split_splitsTo hsplit
  have hroot := split_root hsplit
  have hnot : plan.isShuffleWrite = false := by
    cases plan with
    | shuffleWriteExec child n exprs rb => cases hden
    | _ => rfl
  obtain ⟨read, hread⟩ := exists_readsFrom outs hs.nodup
    (fun i hi => by rw [hy.length_eq]; simpa using (hs.fresh i hi).2)
  refine ⟨writes, _, outs, read, rfl, split_writeStages hsplit ⟨trivial, by simp⟩, hy, rfl,
    hs.nodup, hroot.2.trans hnot, hroot.1, hread, ?_⟩
  rw [ExceptList.mapM_eq_ok, List.forall₂_map_right_iff]
  simp only [hn]
  refine List.Forall₂.imp (fun pid rows hrows => ?_) (ExceptList.mapM_eq_ok.mp hd)
  obtain ⟨part, hpart, hrows⟩ := ExceptList.bind_eq_ok.mp hrows
  have hout : taskOutput read fragment.plan pid = (do
      let part ← executePartition read fragment.plan pid
      let rows ← part.toList
      pure (rows.map (fun r => (0, r)))) := taskOutput_of_not_write (hroot.2.trans hnot)
  rw [hout, hmeans outs read List.prefix_rfl hread pid, hpart, ExceptList.bind_ok, hrows]
  rfl

/-- A last stage that returns its rows sets the dataset of the run. -/
theorem runNext_returns {s : Scheduler F W} {disk : W → Disk F} {lost : Path → Prop}
    (rounds depth : ℕ) {last : Stage F} {outs : List (Written F)} {first : ℕ → ℕ}
    (final : Option (Dataset F)) {st : RunState W} {read : ℕ → ℕ → Py (List (Record F))}
    {parts : List (List (Record F))} (h : Reached s.rootDir disk lost outs first st)
    (hs : Executes s disk lost) (hnd : last.plan.readIds.Nodup)
    (hnot : last.plan.isShuffleWrite = false) (hread : ReadsFrom outs last.plan read)
    (hkept : ReadsKept s.rootDir lost [last])
    (htasks : (List.range last.numPartitions).mapM (taskOutput read last.plan) =
      .ok (parts.map (fun rows => rows.map (fun r => (0, r))))) :
    ∃ st', s.runNext (rounds + 1) (depth + 1) (final, st) last =
      .ok (some (rowsDataset last.plan.schema parts), st') := by
  obtain ⟨results, w', -, hrun, hy⟩ := runStage_yields rounds depth false hs h.represents h.placed
    hnd hread (fun pid _ => hkept.inputKept (by simp) h.placed pid) htasks
  rw [hnot] at hy
  have hrows := hy.rows rfl
  have hcounts := hy.outputRecords rfl
  simp only [List.map_map, Function.comp_def, List.map_id', List.length_map] at hrows hcounts
  rw [Scheduler.runNext, hrun]
  simp only [ExceptList.bind_ok, ExceptList.pure_eq_ok, hnot, Bool.false_eq_true, if_false,
    resultsToDataset_eq hrows hcounts]
  exact ⟨_, rfl⟩

lemma reached_start (root : String) (disk : W → Disk F) (lost : Path → Prop) (first : ℕ → ℕ) (w : W) :
    Reached root disk lost [] first (Scheduler.startState w) where
  registered i w' h := by simp at h
  unregistered i _ := rfl
  represents i w' h := by simp at h
  placed i b hb := by simp [Scheduler.startState] at hb

/-- Executing tasks on the disk itself. -/
lemma executes_executeTask (maxRetries : ℕ) (root : String) (stages : List (Stage F)) :
    Executes (scheduler maxRetries executeTask root stages) id (fun _ => False) :=
  fun _ _ w => ⟨w, fun _ _ => rfl, rfl, rfl⟩

/-- Without loss, `run_plan` returns the partitions its stages compute. -/
theorem StagesReturn.runPlan {stages : List (Stage F)} {schema : Schema}
    {parts : List (List (Record F))} (h : StagesReturn stages schema parts) (maxRetries : ℕ)
    (root : String) (disk : Disk F) :
    runPlan maxRetries executeTask root stages disk = .ok (rowsDataset schema parts) := by
  obtain ⟨writes, last, outs, read, rfl, hw, hy, hid, hnd, hnot, hschema, hread, htasks⟩ := h
  have hs := executes_executeTask maxRetries root (writes ++ [last])
  have hkept : ∀ stages' : List (Stage F), ReadsKept root (fun _ => False) stages' :=
    fun _ _ _ _ _ _ _ _ h => h
  have hrounds : maxRetries + 1 + (writes ++ [last]).length =
      maxRetries + (writes ++ [last]).length + 1 := by omega
  obtain ⟨st, hrun, hreached, -, -, -⟩ := runNext_reaches (maxRetries + (writes ++ [last]).length)
    (writes ++ [last]).length none (fun _ _ => True)
    (reached_start root id _ (fun _ => 0) disk) hy hw.1 hw.2 hs (hkept writes) trivial
    (fun _ _ _ _ => trivial)
  obtain ⟨st', hlast⟩ := runNext_returns (maxRetries + (writes ++ [last]).length)
    (writes ++ [last]).length none hreached hs hnd hnot hread (hkept [last]) htasks
  rw [MiniSpark.runPlan, runAllStages, Scheduler.runStages, hrounds, List.foldlM_append, hrun,
    ExceptList.bind_ok, List.foldlM_cons, hlast, hschema]
  rfl

/-- Without loss, `run_plan` returns the partitions the plan stands for. -/
theorem runPlan_denotes {plan : PhysicalPlan F} {stages : List (Stage F)}
    {parts : List (List (Record F))} (maxRetries : ℕ) (root : String) (disk : Disk F)
    (hb : buildStages plan = .ok stages) (hd : denotedRows plan = .ok parts) :
    runPlan maxRetries executeTask root stages disk = .ok (rowsDataset plan.schema parts) :=
  (buildStages_means hb hd).runPlan maxRetries root disk

end Runs

end MiniSpark
