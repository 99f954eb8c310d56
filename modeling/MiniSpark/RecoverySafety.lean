import MiniSpark.AttemptOutcomes
import MiniSpark.Dealing

/-!
# The retry loop under failures and loss

The invariant of a run: what the manager has registered for the stages that have
finished holds what these stages mean, in files no later task writes. A stage run,
whether first or recomputed, keeps it through every batch, retry and nested
recomputation, and all its results are shares of its stage.
-/
namespace MiniSpark

variable {F : Type} [PyRuntime F] [PyHost F] {W : Type}

section Invariants

/-- The blocks of tasks below `next` are the same on both disks. -/
def KeepsBlocks (root : String) (next : ℕ) (d d' : Disk F) : Prop :=
  ∀ stageId t target, t < next →
    d' (blockPath root stageId t target) = d (blockPath root stageId t target)

/-- What holds between the stages of a run and between the results of a batch. -/
structure RunInv (root : String) (disk : W → Disk F) (outs : List (Written F)) (st : RunState W) :
    Prop where
  represents : Represents NoneLost (disk st.world) st.manager outs
  placed : Placed root st.nextTaskId st.manager

/-- What a piece of a run changes: blocks of earlier tasks stay, and newly registered blocks are
those of tasks numbered after the first `own` new ones. -/
structure Grows (root : String) (disk : W → Disk F) (own : ℕ) (st st' : RunState W) : Prop where
  next : st.nextTaskId + own ≤ st'.nextTaskId
  kept : KeepsBlocks root st.nextTaskId (disk st.world) (disk st'.world)
  registers : ∀ i, ∀ b ∈ (st'.manager.get? i).getD [], b ∈ (st.manager.get? i).getD [] ∨
    ∃ t, st.nextTaskId + own ≤ t ∧ t < st'.nextTaskId ∧ TaskFile root i t b.path

variable {root : String} {disk : W → Disk F} {outs : List (Written F)} {st st' st'' : RunState W}

lemma KeepsBlocks.mono {m n : ℕ} {d d' : Disk F} (h : KeepsBlocks root n d d')
    (hmn : m ≤ n) : KeepsBlocks root m d d' :=
  fun stageId t target ht => h stageId t target (by omega)

theorem Grows.refl : Grows root disk 0 st st where
  next := le_rfl
  kept := fun _ _ _ _ => rfl
  registers := fun _ _ hb => Or.inl hb

theorem Grows.trans {own : ℕ} (h : Grows root disk own st st') (h' : Grows root disk 0 st' st'') :
    Grows root disk own st st'' where
  next := by
    have := h.next
    have := h'.next
    omega
  kept := by
    intro stageId t target ht
    have := h.next
    rw [h'.kept stageId t target (by omega), h.kept stageId t target ht]
  registers := by
    intro i b hb
    have hnext := h.next
    have hnext' := h'.next
    obtain hb | ⟨t, hle, hlt, hfile⟩ := h'.registers i b hb
    · obtain hb | ⟨t, hle, hlt, hfile⟩ := h.registers i b hb
      · exact Or.inl hb
      · exact Or.inr ⟨t, hle, by omega, hfile⟩
    · exact Or.inr ⟨t, by omega, hlt, hfile⟩

end Invariants

section StageRuns

/-- A stage run under way: its stage, the id of its first task, and what its stage reads. -/
structure StageRun (F : Type) where
  root : String
  stage : Stage F
  first : ℕ
  outs : List (Written F)
  read : ℕ → ℕ → Py (List (Record F))

namespace StageRun

/-- The reader of the run hands out what the finished stages wrote. -/
def Reads (c : StageRun F) : Prop := ReadsFrom c.outs c.stage.plan c.read

/-- A successful result delivers an output for its partition; when the run reads finished
stages only, it is the right one. -/
def Outcome (c : StageRun F) (disk : Disk F) (pid : ℕ) (result : TaskResult F) : Prop :=
  result.state = .success → ∃ tagged, Delivers c.root disk c.stage (c.first + pid) tagged result ∧
    (c.Reads → taskOutput c.read c.stage.plan pid = .ok tagged)

/-- A task of the run that carries recorded blocks. -/
structure Prepared (c : StageRun F) (next : ℕ) (disk : Disk F) (task : Task F) : Prop where
  ofStage : StageTask c.root c.stage c.first task
  blocks : c.Reads → BlocksHold c.root c.outs next disk task

variable {c : StageRun F} {next : ℕ} {disk disk' : Disk F}

lemma Outcome.frame {pid : ℕ} {result : TaskResult F} (h : c.Outcome disk pid result)
    (hd : ∀ path, TaskFile c.root c.stage.stageId (c.first + pid) path → disk' path = disk path) :
    c.Outcome disk' pid result := by
  intro hsuccess
  obtain ⟨tagged, hdelivers, hright⟩ := h hsuccess
  exact ⟨tagged, hdelivers.frame hd, hright⟩

lemma Prepared.frame {next' : ℕ} {task : Task F} (h : c.Prepared next disk task)
    (hnext : next ≤ next')
    (hd : ∀ i ∈ c.stage.plan.readIds, ∀ t < next, ∀ path, TaskFile c.root i t path →
      disk' path = disk path) : c.Prepared next' disk' task := by
  refine ⟨h.ofStage, fun hreads p hp => ?_⟩
  obtain ⟨w, blocks, chunks, hw, hblocks, hholds, hrows, hfiles⟩ := h.blocks hreads p hp
  have hid : p.1 ∈ c.stage.plan.readIds := by
    rw [← h.ofStage.plan]
    exact List.mem_map_of_mem hp
  refine ⟨w, blocks, chunks, hw, hblocks, ?_, hrows, fun b hb => ?_⟩
  · refine ExceptList.forall₂_imp_of_mem hholds (fun b hb rows _ hrows => ⟨hrows.1, fun hkept => ?_⟩)
    obtain ⟨t, ht, hfile⟩ := hfiles b hb
    rw [hd p.1 hid t ht b.path hfile]
    exact hrows.2 hkept
  · obtain ⟨t, ht, hfile⟩ := hfiles b hb
    exact ⟨t, by omega, hfile⟩

/-- The blocks a task resolves from the manager are recorded. -/
lemma prepared_of_resolved {disk : W → Disk F} {st : RunState W} {task : Task F}
    (hinv : RunInv c.root disk c.outs st) (htask : StageTask c.root c.stage c.first task)
    (hnd : c.stage.plan.readIds.Nodup)
    (hblocks : task.shuffleBlocks = resolveShuffleBlocks task.plan task.partitionId st.manager) :
    c.Prepared st.nextTaskId (disk st.world) task := by
  refine ⟨htask, fun hreads p hp => ?_⟩
  rw [← htask.plan] at hnd
  have hreads' : ReadsFrom c.outs task.plan c.read := by
    rw [htask.plan]
    exact hreads
  obtain ⟨w, hw, -⟩ := hreads' p hp
  obtain ⟨chunks, hholds, hrows⟩ := hinv.represents p.1 w hw (targetOf p.2 task.partitionId)
  refine ⟨w, _, chunks, hw, ?_, hholds, hrows, fun b hb => ?_⟩
  · rw [Task.blocksOf, hblocks]
    exact resolveShuffleBlocks_get? hnd hp
  · exact hinv.placed p.1 b (List.mem_of_mem_filter hb)

end StageRun

end StageRuns

section Batches

variable {c : StageRun F} {s : Scheduler F W} {disk : W → Disk F}

/-- A batch: every result is an outcome, and only files of its tasks change. -/
theorem runBatch_outcomes (hrun : Unreliable s.runTask disk)
    (hids : ∀ i ∈ c.stage.plan.readIds, i < c.stage.stageId) {next : ℕ}
    {batch : List (Task F × ℕ)} {w : W} (hnd : (batch.map (fun e => e.1.taskId)).Nodup)
    (hbatch : ∀ e ∈ batch, c.Prepared next (disk w) e.1) :
    List.Forall₂ (fun e r => c.Outcome (disk (s.runBatch batch w).2) e.1.partitionId r) batch
        (s.runBatch batch w).1 ∧
      ∀ path, (∀ e ∈ batch, e.1.ownsFile path = false) →
        disk (s.runBatch batch w).2 path = disk w path := by
  induction batch generalizing w with
  | nil => exact ⟨.nil, fun _ _ => rfl⟩
  | cons e batch ih =>
      obtain ⟨task, attempt⟩ := e
      obtain ⟨hhead, hbatch⟩ := List.forall_mem_cons.mp hbatch
      rw [List.map_cons, List.nodup_cons] at hnd
      obtain ⟨hframe, -⟩ := hrun task attempt w
      have hrest : ∀ e ∈ batch, c.Prepared next (disk (s.runTask task attempt w).2) e.1 := by
        intro e he
        refine (hbatch e he).frame le_rfl (fun i hi t _ path hfile => hframe path ?_)
        obtain ⟨target, rfl⟩ := hfile
        have hlt := hids i hi
        rw [Bool.eq_false_iff, ne_eq, ownsFile_blockPath, hhead.ofStage.stageId]
        omega
      obtain ⟨hall, hother⟩ := ih hnd.2 hrest
      rw [runBatch_cons]
      refine ⟨.cons (fun hsuccess => ?_) hall, fun path hpath => ?_⟩
      · obtain ⟨tagged, hdelivers, hright⟩ := attempt_delivers attempt hrun hhead.ofStage hsuccess
        rw [hhead.ofStage.taskId] at hdelivers
        refine ⟨tagged, hdelivers.frame (fun path hfile => hother path (fun e he => ?_)),
          fun hreads => hright _ _ _ hreads (hhead.blocks hreads)⟩
        obtain ⟨target, rfl⟩ := hfile
        rw [Bool.eq_false_iff, ne_eq, ownsFile_blockPath, ← hhead.ofStage.taskId]
        rintro ⟨-, hid⟩
        exact hnd.1 (hid ▸ List.mem_map_of_mem (f := fun e => e.1.taskId) he)
      · obtain ⟨hown, hpath⟩ := List.forall_mem_cons.mp hpath
        rw [hother path hpath, hframe path hown]

end Batches

section Loops

variable {c : StageRun F} {s : Scheduler F W} {disk : W → Disk F} {st₀ : RunState W}
  {recover : Task F → ℕ → RunState W → Except RunError (Option (Task F) × RunState W)}

/-- The retry loop between two results: what it started from, and the results still to be
settled, the tasks to be tried again and the results that are done. -/
structure LoopInv (c : StageRun F) (disk : W → Disk F) (st₀ : RunState W)
    (entries : List ((Task F × ℕ) × TaskResult F)) (progress : Progress F) (st : RunState W) :
    Prop where
  run : RunInv c.root disk c.outs st
  grows : Grows c.root disk c.stage.numPartitions st₀ st
  distinct : (progress.done.keys ++ (progress.pending.map (fun e => e.1.taskId) ++
    entries.map (fun e => e.1.1.taskId))).Nodup
  pending : ∀ e ∈ progress.pending, c.Prepared st.nextTaskId (disk st.world) e.1
  entries : ∀ e ∈ entries, c.Prepared st.nextTaskId (disk st.world) e.1.1 ∧
    c.Outcome (disk st.world) e.1.1.partitionId e.2
  done : ∀ pid < c.stage.numPartitions, ∀ result, progress.done.get? (c.first + pid) = some result →
    c.Outcome (disk st.world) pid result

/-- Recomputing an upstream stage keeps the invariant and refreshes the task's blocks. -/
def Recovers (c : StageRun F) (disk : W → Disk F)
    (recover : Task F → ℕ → RunState W → Except RunError (Option (Task F) × RunState W)) : Prop :=
  ∀ task missing st recovered st', RunInv c.root disk c.outs st →
    recover task missing st = .ok (recovered, st') →
    RunInv c.root disk c.outs st' ∧ Grows c.root disk 0 st st' ∧
      ∀ task', recovered = some task' → task' = { task with
        shuffleBlocks := resolveShuffleBlocks task.plan task.partitionId st'.manager }

lemma tryRecover_recovers (hrec : Recovers c disk recover) {task : Task F} {result : TaskResult F}
    {st st' : RunState W} {recovered : Option (Task F)} (hinv : RunInv c.root disk c.outs st)
    (h : Scheduler.tryRecover recover task result st = .ok (recovered, st')) :
    RunInv c.root disk c.outs st' ∧ Grows c.root disk 0 st st' ∧
      ∀ task', recovered = some task' → task' = { task with
        shuffleBlocks := resolveShuffleBlocks task.plan task.partitionId st'.manager } := by
  unfold Scheduler.tryRecover at h
  split at h
  · exact hrec _ _ _ _ _ hinv h
  · cases h
    exact ⟨hinv, .refl, by simp⟩

namespace LoopInv

variable {entries : List ((Task F × ℕ) × TaskResult F)} {e : (Task F × ℕ) × TaskResult F}
  {progress : Progress F} {st st' : RunState W}

/-- A nested run of another stage disturbs nothing. -/
lemma extend (h : LoopInv c disk st₀ entries progress st) (hfirst : c.first = st₀.nextTaskId)
    (hinv : RunInv c.root disk c.outs st') (hg : Grows c.root disk 0 st st') :
    LoopInv c disk st₀ entries progress st' := by
  have hnext := h.grows.next
  have hgrow := hg.next
  have hprepared : ∀ task, c.Prepared st.nextTaskId (disk st.world) task →
      c.Prepared st'.nextTaskId (disk st'.world) task := by
    intro task htask
    refine htask.frame (by omega) (fun i _ t ht path hfile => ?_)
    obtain ⟨target, rfl⟩ := hfile
    exact hg.kept i t target ht
  have houtcome : ∀ pid < c.stage.numPartitions, ∀ result, c.Outcome (disk st.world) pid result →
      c.Outcome (disk st'.world) pid result := by
    intro pid hpid result hresult
    refine hresult.frame (fun path hfile => ?_)
    obtain ⟨target, rfl⟩ := hfile
    exact hg.kept _ _ target (by omega)
  exact {
    run := hinv
    grows := h.grows.trans hg
    distinct := h.distinct
    pending := fun e he => hprepared e.1 (h.pending e he)
    entries := fun e he => ⟨hprepared _ (h.entries e he).1,
      houtcome _ (h.entries e he).1.ofStage.inStage _ (h.entries e he).2⟩
    done := fun pid hpid result hresult => houtcome pid hpid result (h.done pid hpid result hresult) }

/-- A result sends its task back to the pending ones. -/
lemma retry (h : LoopInv c disk st₀ (e :: entries) progress st) {task : Task F} (attempt : ℕ)
    (retried : List ℕ) (hid : task.taskId = e.1.1.taskId)
    (htask : c.Prepared st.nextTaskId (disk st.world) task) :
    LoopInv c disk st₀ entries
      ⟨progress.pending ++ [(task, attempt)], progress.done, retried⟩ st where
  run := h.run
  grows := h.grows
  distinct := by
    have hd := h.distinct
    simpa [hid] using hd
  pending := by
    intro p hp
    obtain hp | hp := List.mem_append.mp hp
    · exact h.pending p hp
    · rw [List.mem_singleton.mp hp]
      exact htask
  entries := fun p hp => h.entries p (List.mem_cons_of_mem _ hp)
  done := h.done

/-- A result is done. -/
lemma finish (h : LoopInv c disk st₀ (e :: entries) progress st) :
    LoopInv c disk st₀ entries
      { progress with done := progress.done.set e.1.1.taskId e.2 } st where
  run := h.run
  grows := h.grows
  distinct := by
    have hd := h.distinct
    have hfresh : e.1.1.taskId ∉ progress.done.keys := by
      rw [List.nodup_append] at hd
      intro hmem
      exact hd.2.2 _ hmem _ (by simp) rfl
    have hkeys : (progress.done.set e.1.1.taskId e.2).keys = progress.done.keys ++ [e.1.1.taskId] := by
      have hnot : ¬ progress.done.contains e.1.1.taskId = true := by
        rw [← OrderedDict.get?_isSome]
        exact fun hsome => hfresh (OrderedDict.isSome_get?_iff.mp hsome)
      rw [OrderedDict.keys_set, if_neg hnot]
    rw [hkeys, List.append_assoc]
    refine (List.Perm.nodup_iff (List.Perm.append_left _ ?_)).mp hd
    rw [List.map_cons]
    exact List.perm_middle
  pending := h.pending
  entries := fun p hp => h.entries p (List.mem_cons_of_mem _ hp)
  done := by
    intro pid hpid result hresult
    obtain ⟨hprepared, houtcome⟩ := h.entries e List.mem_cons_self
    rw [OrderedDict.get?_set] at hresult
    split at hresult
    · next heq =>
        have hid := hprepared.ofStage.taskId
        rw [beq_iff_eq] at heq
        cases hresult
        obtain rfl : pid = e.1.1.partitionId := by omega
        exact houtcome
    · exact h.done pid hpid result hresult

end LoopInv

/-- Settling one result keeps the invariant. -/
theorem settle_inv (hrec : Recovers c disk recover) (hfirst : c.first = st₀.nextTaskId)
    (hnd : c.stage.plan.readIds.Nodup) {entries : List ((Task F × ℕ) × TaskResult F)}
    {e : (Task F × ℕ) × TaskResult F} {progress progress' : Progress F} {st st' : RunState W}
    (h : LoopInv c disk st₀ (e :: entries) progress st)
    (hstep : s.settle recover (progress, st) e = .ok (progress', st')) :
    LoopInv c disk st₀ entries progress' st' := by
  obtain ⟨⟨task, attempt⟩, result⟩ := e
  obtain ⟨⟨recovered, st₁⟩, htry, hstep⟩ := ExceptList.bind_eq_ok.mp hstep
  obtain ⟨hinv, hg, htask'⟩ := tryRecover_recovers hrec h.run htry
  have h₁ := h.extend hfirst hinv hg
  have hprepared := (h₁.entries _ List.mem_cons_self).1
  cases recovered with
  | some task' =>
      cases hstep
      obtain rfl := htask' task' rfl
      have hof := hprepared.ofStage
      exact h₁.retry _ _ rfl (StageRun.prepared_of_resolved hinv
        ⟨hof.root, hof.stageId, hof.plan, hof.taskId, hof.inStage⟩ hnd rfl)
  | none =>
      simp only at hstep
      split at hstep
      · cases hstep
        exact h₁.retry _ _ rfl hprepared
      · cases hstep
        exact h₁.finish

theorem settleAll_inv (hrec : Recovers c disk recover) (hfirst : c.first = st₀.nextTaskId)
    (hnd : c.stage.plan.readIds.Nodup) {entries : List ((Task F × ℕ) × TaskResult F)}
    {progress progress' : Progress F} {st st' : RunState W}
    (h : LoopInv c disk st₀ entries progress st)
    (hrun : entries.foldlM (s.settle recover) (progress, st) = .ok (progress', st')) :
    LoopInv c disk st₀ [] progress' st' := by
  induction entries generalizing progress st with
  | nil =>
      cases hrun
      exact h
  | cons e entries ih =>
      rw [List.foldlM_cons] at hrun
      obtain ⟨⟨progress₁, st₁⟩, hstep, hrest⟩ := ExceptList.bind_eq_ok.mp hrun
      exact ih (settle_inv hrec hfirst hnd h hstep) hrest

/-- Running the pending tasks as a batch keeps the invariant. -/
theorem runBatch_inv (hrun : Unreliable s.runTask disk) (hfirst : c.first = st₀.nextTaskId)
    (hids : ∀ i ∈ c.stage.plan.readIds, i < c.stage.stageId)
    (hplaced : Placed c.root st₀.nextTaskId st₀.manager) {progress : Progress F} {st : RunState W}
    (h : LoopInv c disk st₀ [] progress st) :
    LoopInv c disk st₀ (progress.pending.zip (s.runBatch progress.pending st.world).1)
      { progress with pending := [] }
      { st with world := (s.runBatch progress.pending st.world).2 } := by
  have hdistinct := h.distinct
  rw [List.map_nil, List.append_nil] at hdistinct
  have hnd := (List.nodup_append.mp hdistinct).2.1
  obtain ⟨hall, hother⟩ := runBatch_outcomes hrun hids hnd h.pending
  have hlen := hall.length_eq
  have hown : ∀ e ∈ progress.pending, c.first ≤ e.1.taskId ∧
      e.1.taskId < c.first + c.stage.numPartitions ∧ e.1.stageId = c.stage.stageId := by
    intro e he
    have hof := (h.pending e he).ofStage
    have := hof.taskId
    have := hof.inStage
    exact ⟨by omega, by omega, hof.stageId⟩
  -- files of tasks outside the run, or of other stages, stay
  have houtside : ∀ i t target, t < c.first ∨ c.first + c.stage.numPartitions ≤ t ∨
      i ≠ c.stage.stageId → disk (s.runBatch progress.pending st.world).2 (blockPath c.root i t target) =
        disk st.world (blockPath c.root i t target) := by
    intro i t target hit
    refine hother _ (fun e he => ?_)
    have := hown e he
    rw [Bool.eq_false_iff, ne_eq, ownsFile_blockPath]
    omega
  exact {
    run := by
      refine ⟨fun i w hi => (h.run.represents i w hi).frame (fun b hb _ => ?_), h.run.placed⟩
      obtain hb | ⟨t, hle, -, target, hpath⟩ := h.grows.registers i b hb
      · obtain ⟨t, hlt, target, hpath⟩ := hplaced i b hb
        rw [hpath]
        exact houtside i t target (by omega)
      · rw [hpath]
        exact houtside i t target (by omega)
    grows := {
      next := h.grows.next
      kept := by
        intro i t target ht
        have hkept := h.grows.kept i t target ht
        rw [houtside i t target (by omega), hkept]
      registers := h.grows.registers }
    distinct := by
      have hzip : (progress.pending.zip (s.runBatch progress.pending st.world).1).map
          (fun e => e.1.1.taskId) = progress.pending.map (fun e => e.1.taskId) := by
        conv_rhs => rw [← List.map_fst_zip (Nat.le_of_eq hlen), List.map_map]
        rfl
      rw [hzip]
      exact hdistinct
    pending := by
      intro e he
      cases he
    entries := by
      intro e he
      have hpair := (List.forall₂_iff_zip.mp hall).2 he
      refine ⟨(h.pending e.1 (List.of_mem_zip he).1).frame le_rfl (fun i hi t _ path hfile => ?_), hpair⟩
      obtain ⟨target, rfl⟩ := hfile
      have := hids i hi
      exact houtside i t target (by omega)
    done := by
      intro pid hpid result hresult
      refine (h.done pid hpid result hresult).frame (fun path hfile => ?_)
      obtain ⟨target, rfl⟩ := hfile
      refine hother _ (fun e he => ?_)
      rw [Bool.eq_false_iff, ne_eq, ownsFile_blockPath]
      rintro ⟨-, hid⟩
      have hkey : c.first + pid ∈ progress.done.keys :=
        OrderedDict.isSome_get?_iff.mp (by rw [hresult]; rfl)
      have hmem : e.1.taskId ∈ progress.pending.map (fun e => e.1.taskId) :=
        List.mem_map_of_mem he
      exact (List.nodup_append.mp hdistinct).2.2 _ hkey _ hmem hid }

/-- The whole loop. -/
theorem loop_inv (hrun : Unreliable s.runTask disk) (hrec : Recovers c disk recover)
    (hfirst : c.first = st₀.nextTaskId) (hnd : c.stage.plan.readIds.Nodup)
    (hids : ∀ i ∈ c.stage.plan.readIds, i < c.stage.stageId)
    (hplaced : Placed c.root st₀.nextTaskId st₀.manager) {rounds : ℕ}
    {progress progress' : Progress F} {st st' : RunState W}
    (h : LoopInv c disk st₀ [] progress st)
    (hloop : s.loop recover rounds progress st = .ok (progress', st')) :
    LoopInv c disk st₀ [] progress' st' := by
  induction rounds generalizing progress st with
  | zero =>
      by_cases hnil : progress.pending = []
      · rw [loop_done s recover 0 st hnil] at hloop
        cases hloop
        exact h
      · rw [loop_zero s recover st hnil] at hloop
        cases hloop
  | succ rounds ih =>
      by_cases hnil : progress.pending = []
      · rw [loop_done s recover _ st hnil] at hloop
        cases hloop
        exact h
      · rw [loop_succ s recover rounds st hnil] at hloop
        obtain ⟨⟨progress₁, st₁⟩, hsettle, hrest⟩ := ExceptList.bind_eq_ok.mp hloop
        exact ih (settleAll_inv hrec hfirst hnd (runBatch_inv hrun hfirst hids hplaced h) hsettle)
          hrest

end Loops

section Stages

/-- The results of a whole stage: its output, partition by partition. -/
structure StageDelivers (root : String) (disk : Disk F) (stage : Stage F) (first : ℕ)
    (written : Written F) (results : List (TaskResult F)) : Prop where
  rows : stage.plan.isShuffleWrite = false →
    results.map TaskResult.rows = written.map (fun w => w.map Prod.snd)
  outputRecords : stage.plan.isShuffleWrite = false →
    results.map (fun r => r.metrics.outputRecords) = written.map List.length
  stored : stage.plan.isShuffleWrite = true →
    Stored NoneLost disk (results.flatMap TaskResult.shuffleBlocks) written
  files : ∀ b ∈ results.flatMap TaskResult.shuffleBlocks, ∃ t, first ≤ t ∧
    t < first + stage.numPartitions ∧ TaskFile root stage.stageId t b.path

lemma stageDelivers_of_tasks {root : String} {disk : Disk F} {stage : Stage F} {first : ℕ}
    {written : Written F} {results : List (TaskResult F)}
    (h : List.Forall₂ (fun tagged r => ∃ pid < stage.numPartitions,
      Delivers root disk stage (first + pid) tagged r) written results) :
    StageDelivers root disk stage first written results := by
  induction h with
  | nil => exact ⟨fun _ => rfl, fun _ => rfl, fun _ => .nil, by simp⟩
  | @cons tagged r written results hr _ ih =>
      obtain ⟨pid, hpid, hr⟩ := hr
      refine ⟨fun hw => ?_, fun hw => ?_, fun hw => ?_, fun b hb => ?_⟩
      · rw [List.map_cons, List.map_cons, hr.rows hw, ih.rows hw]
      · rw [List.map_cons, List.map_cons, hr.outputRecords hw, ih.outputRecords hw]
      · rw [List.flatMap_cons]
        exact (hr.stored hw).append (ih.stored hw)
      · rw [List.flatMap_cons] at hb
        obtain hb | hb := List.mem_append.mp hb
        · exact ⟨first + pid, by omega, by omega, hr.files b hb⟩
        · exact ih.files b hb

variable {c : StageRun F} {s : Scheduler F W} {disk : W → Disk F} {st st' : RunState W}
  {recover : Task F → ℕ → RunState W → Except RunError (Option (Task F) × RunState W)}

/-- The invariant when the tasks of a stage have been made. -/
lemma loopInv_start (hroot : s.rootDir = c.root) (hfirst : c.first = st.nextTaskId)
    (hnd : c.stage.plan.readIds.Nodup) (h : RunInv c.root disk c.outs st) :
    LoopInv c disk st [] ⟨(s.makeTasks c.stage st).map (fun t => (t, 0)), OrderedDict.empty, []⟩
      { st with nextTaskId := st.nextTaskId + c.stage.numPartitions } where
  run := by
    refine ⟨h.represents, fun i b hb => ?_⟩
    obtain ⟨t, ht, hfile⟩ := h.placed i b hb
    exact ⟨t, by simp only; omega, hfile⟩
  grows := ⟨le_rfl, fun _ _ _ _ => rfl, fun _ _ hb => Or.inl hb⟩
  distinct := by
    simp only [OrderedDict.keys, OrderedDict.items_empty, List.map_nil, List.nil_append,
      List.append_nil, List.map_map, Scheduler.makeTasks]
    exact List.nodup_range.map (fun a b hab => by simpa using hab)
  pending := by
    intro e he
    obtain ⟨task, htask, rfl⟩ := List.mem_map.mp he
    obtain ⟨pid, hpid, rfl⟩ := List.mem_map.mp htask
    have hof : StageTask c.root c.stage c.first ⟨st.nextTaskId + pid, c.stage.stageId, pid,
        c.stage.plan, some s.rootDir, resolveShuffleBlocks c.stage.plan pid st.manager⟩ :=
      ⟨congrArg some hroot, rfl, rfl, by simp only [hfirst], List.mem_range.mp hpid⟩
    exact (StageRun.prepared_of_resolved h hof hnd rfl).frame (by simp) (fun _ _ _ _ _ _ => rfl)
  entries := by
    intro e he
    cases he
  done := by
    intro pid _ result hresult
    cases hresult

/-- A stage run to completion keeps the invariant, and its results are shares of the stage. -/
theorem runToCompletion_safe (hrun : Unreliable s.runTask disk) (hrec : Recovers c disk recover)
    (hroot : s.rootDir = c.root) (hfirst : c.first = st.nextTaskId)
    (hnd : c.stage.plan.readIds.Nodup) (hids : ∀ i ∈ c.stage.plan.readIds, i < c.stage.stageId)
    (hinv : RunInv c.root disk c.outs st) {rounds retried : ℕ} {results : List (TaskResult F)}
    (h : s.runToCompletion recover rounds c.stage st = .ok ((results, retried), st')) :
    RunInv c.root disk c.outs st' ∧ Grows c.root disk c.stage.numPartitions st st' ∧
      ∃ written, (c.Reads → (List.range c.stage.numPartitions).mapM
          (taskOutput c.read c.stage.plan) = .ok written) ∧
        StageDelivers c.root (disk st'.world) c.stage c.first written results := by
  obtain ⟨⟨progress, st₁⟩, hloop, h⟩ := ExceptList.bind_eq_ok.mp h
  obtain ⟨results', hresults, h⟩ := ExceptList.bind_eq_ok.mp h
  have hend := loop_inv hrun hrec hfirst hnd hids hinv.placed
    (loopInv_start hroot hfirst hnd hinv) hloop
  split at h
  · next hnone =>
      cases h
      refine ⟨hend.run, hend.grows, ?_⟩
      have houtcomes : List.Forall₂ (fun pid r => pid < c.stage.numPartitions ∧
          r.state = .success ∧ c.Outcome (disk st'.world) pid r)
          (List.range c.stage.numPartitions) results := by
        rw [Scheduler.makeTasks, List.mapM_map, ExceptList.mapM_eq_ok] at hresults
        refine ExceptList.forall₂_imp_of_mem hresults (fun pid hpid r hr hfound => ?_)
        have hlt := List.mem_range.mp hpid
        have hget : progress.done.get? (c.first + pid) = some r := by
          simp only [Function.comp_apply, Scheduler.resultOf, ← hfirst] at hfound
          split at hfound
          · next heq =>
              cases hfound
              exact heq
          · cases hfound
        have hsuccess : r.state = .success := by
          have hnot := List.filter_eq_nil_iff.mp hnone r hr
          cases hstate : r.state with
          | success => rfl
          | failed => simp [hstate] at hnot
        exact ⟨hlt, hsuccess, hend.done pid hlt r hget⟩
      obtain ⟨written, hwritten, hdelivers⟩ := Dealing.forall₂_between
        (Q := fun pid tagged => c.Reads → taskOutput c.read c.stage.plan pid = .ok tagged)
        (T := fun tagged r => ∃ pid < c.stage.numPartitions,
          Delivers c.root (disk st'.world) c.stage (c.first + pid) tagged r) houtcomes
        (fun pid r _ hr => by
          obtain ⟨tagged, hd, hright⟩ := hr.2.2 hr.2.1
          exact ⟨tagged, hright, pid, hr.1, hd⟩)
      refine ⟨written, fun hreads => ?_, stageDelivers_of_tasks hdelivers⟩
      exact ExceptList.mapM_eq_ok.mpr (hwritten.imp fun _ _ hw => hw hreads)
  · cases h

/-- A stage as splitting makes it: it reads earlier stages, no one twice, and when it has finished
its output is the one recorded. -/
structure StageOk (outs : List (Written F)) (stage : Stage F) : Prop where
  nodup : stage.plan.readIds.Nodup
  earlier : ∀ i ∈ stage.plan.readIds, i < stage.stageId
  finished : ∀ w, outs[stage.stageId]? = some w → ∃ read, ReadsFrom outs stage.plan read ∧
    (List.range stage.numPartitions).mapM (taskOutput read stage.plan) = .ok w

/-- Registering the blocks of a stage whose tasks have all delivered. -/
lemma finishStage_safe {outs : List (Written F)} {root : String} {stage : Stage F}
    {results : List (TaskResult F)} {written : Written F} (recomputed : Bool) (retried : ℕ)
    (hinv : RunInv root disk outs st') (hg : Grows root disk stage.numPartitions st st')
    (hd : StageDelivers root (disk st'.world) stage st.nextTaskId written results)
    (hright : ∀ w, outs[stage.stageId]? = some w → w = written) :
    RunInv root disk outs (Scheduler.finishStage stage recomputed results retried st') ∧
      Grows root disk 0 st (Scheduler.finishStage stage recomputed results retried st') := by
  have hnext := hg.next
  cases hwrite : stage.plan.isShuffleWrite with
  | false =>
      simp only [Scheduler.finishStage, hwrite, Bool.false_eq_true, if_false]
      refine ⟨⟨hinv.represents, hinv.placed⟩, ⟨by simp only; omega, hg.kept, fun i b hb => ?_⟩⟩
      obtain hb | ⟨t, hle, hlt, hfile⟩ := hg.registers i b hb
      · exact Or.inl hb
      · exact Or.inr ⟨t, by omega, hlt, hfile⟩
  | true =>
      have hget : ∀ i, (st'.manager.registerBlocks stage.stageId
          (results.flatMap TaskResult.shuffleBlocks)).get? i =
          if stage.stageId = i then some (results.flatMap TaskResult.shuffleBlocks)
          else st'.manager.get? i := by
        intro i
        rw [ShuffleManager.registerBlocks, OrderedDict.get?_set]
        simp only [beq_iff_eq]
      simp only [Scheduler.finishStage, hwrite, if_true]
      refine ⟨⟨fun i w hi => ?_, fun i b hb => ?_⟩, ⟨by simp only; omega, hg.kept, fun i b hb => ?_⟩⟩
      · simp only [hget]
        by_cases hid : stage.stageId = i
        · subst hid
          obtain rfl := hright w hi
          rw [if_pos rfl, Option.getD_some]
          exact hd.stored hwrite
        · rw [if_neg hid]
          exact hinv.represents i w hi
      · simp only [hget] at hb
        by_cases hid : stage.stageId = i
        · subst hid
          rw [if_pos rfl, Option.getD_some] at hb
          obtain ⟨t, -, hlt, hfile⟩ := hd.files b hb
          exact ⟨t, by simp only; omega, hfile⟩
        · rw [if_neg hid] at hb
          exact hinv.placed i b hb
      · simp only [hget] at hb
        by_cases hid : stage.stageId = i
        · subst hid
          rw [if_pos rfl, Option.getD_some] at hb
          obtain ⟨t, hle, hlt, hfile⟩ := hd.files b hb
          exact Or.inr ⟨t, by omega, by simp only; omega, hfile⟩
        · rw [if_neg hid] at hb
          obtain hb | ⟨t, hle, hlt, hfile⟩ := hg.registers i b hb
          · exact Or.inl hb
          · exact Or.inr ⟨t, by omega, hlt, hfile⟩

/-- A stage run, first or recomputed, at any depth. -/
theorem runStage_safe {outs : List (Written F)} {rounds depth : ℕ} {stage : Stage F}
    {recomputed : Bool} {results : List (TaskResult F)} (hrun : Unreliable s.runTask disk)
    (hstages : ∀ i stage, s.stagesById.get? i = some stage → StageOk outs stage)
    (hstage : StageOk outs stage) (hinv : RunInv s.rootDir disk outs st)
    (h : s.runStage rounds depth stage recomputed st = .ok (results, st')) :
    RunInv s.rootDir disk outs st' ∧ Grows s.rootDir disk 0 st st' ∧
      ∀ read, ReadsFrom outs stage.plan read → ∃ written,
        (List.range stage.numPartitions).mapM (taskOutput read stage.plan) = .ok written ∧
        StageDelivers s.rootDir (disk st'.world) stage st.nextTaskId written results ∧
        (stage.plan.isShuffleWrite = true →
          st'.manager.get? stage.stageId = some (results.flatMap TaskResult.shuffleBlocks)) := by
  induction depth generalizing stage recomputed results st st' with
  | zero => cases h
  | succ depth ih =>
      obtain ⟨⟨⟨results', retried⟩, st₁⟩, hcomplete, h⟩ := ExceptList.bind_eq_ok.mp h
      cases h
      have hsafe : ∀ read, RunInv s.rootDir disk outs st₁ ∧
          Grows s.rootDir disk stage.numPartitions st st₁ ∧
          ∃ written, (ReadsFrom outs stage.plan read → (List.range stage.numPartitions).mapM
              (taskOutput read stage.plan) = .ok written) ∧
            StageDelivers s.rootDir (disk st₁.world) stage st.nextTaskId written results := by
        intro read
        refine runToCompletion_safe (c := ⟨s.rootDir, stage, st.nextTaskId, outs, read⟩) hrun ?_ rfl
          rfl hstage.nodup hstage.earlier hinv hcomplete
        -- recovery runs a stage one level deeper
        intro task missing st₂ recovered st₃ hinv₂ hrecover
        simp only at hrecover
        split at hrecover
        · cases hrecover
          exact ⟨hinv₂, .refl, by simp⟩
        · split at hrecover
          · cases hrecover
            exact ⟨hinv₂, .refl, by simp⟩
          · next missingStage hmissing =>
              obtain ⟨⟨_, st₄⟩, hnested, hrecover⟩ := ExceptList.bind_eq_ok.mp hrecover
              cases hrecover
              have hinv₂' : RunInv s.rootDir disk outs
                  { st₂ with recomputedStages := st₂.recomputedStages.insert missing } :=
                ⟨hinv₂.represents, hinv₂.placed⟩
              obtain ⟨hinv₄, hg₄, -⟩ := ih (hstages _ _ hmissing) hinv₂' hnested
              refine ⟨hinv₄, ⟨hg₄.next, hg₄.kept, hg₄.registers⟩, fun task' htask' => ?_⟩
              exact (Option.some.inj htask').symm
      have hfinish : RunInv s.rootDir disk outs
            (Scheduler.finishStage stage recomputed results retried st₁) ∧
          Grows s.rootDir disk 0 st
            (Scheduler.finishStage stage recomputed results retried st₁) := by
        cases hdone : outs[stage.stageId]? with
        | none =>
            obtain ⟨hinv₁, hg, written, -, hd⟩ := hsafe (fun _ _ => .ok [])
            exact finishStage_safe recomputed retried hinv₁ hg hd (fun w hw => by simp [hdone] at hw)
        | some w =>
            obtain ⟨read, hreads, hw⟩ := hstage.finished w hdone
            obtain ⟨hinv₁, hg, written, hwritten, hd⟩ := hsafe read
            obtain rfl : w = written := Except.ok.inj (hw.symm.trans (hwritten hreads))
            refine finishStage_safe recomputed retried hinv₁ hg hd (fun w' hw' => ?_)
            exact Option.some.inj (hw'.symm.trans hdone)
      refine ⟨hfinish.1, hfinish.2, fun read hreads => ?_⟩
      obtain ⟨-, -, written, hwritten, hd⟩ := hsafe read
      refine ⟨written, hwritten hreads, ⟨hd.rows, hd.outputRecords, hd.stored, hd.files⟩, fun hwrite => ?_⟩
      simp [Scheduler.finishStage, hwrite, ShuffleManager.registerBlocks, OrderedDict.get?_set]

end Stages

end MiniSpark
