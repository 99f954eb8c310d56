import MiniSpark.StageExecution

/-!
# A task that cannot succeed

A stage that has been recomputed is not recomputed again, so a task that keeps naming it as
missing is only tried again with the blocks it has. When each of these attempts fails, the
task is among the failed ones at the end, and the run of its stage raises.
-/
namespace MiniSpark

variable {F : Type} {W : Type} {s : Scheduler F W} {missing : ℕ}
  {recover : Task F → ℕ → RunState W → Except RunError (Option (Task F) × RunState W)}

section Results

/-- The result reports the stage as missing. -/
def Misses (missing : ℕ) (result : TaskResult F) : Prop :=
  result.state = .failed ∧ result.missingShuffleStageId = some missing

/-- In worlds with the property every attempt of the task keeps it, and succeeds or misses the
stage. -/
def Calm (s : Scheduler F W) (P : W → Prop) (missing : ℕ) (task : Task F) : Prop :=
  ∀ attempt w, P w → P (s.runTask task attempt w).2 ∧
    ((s.runTask task attempt w).1.state = .success ∨ Misses missing (s.runTask task attempt w).1)

/-- The task is to be tried again or has failed for good. -/
def Doomed (task : Task F) (progress : Progress F) : Prop :=
  (∃ attempt, (task, attempt) ∈ progress.pending) ∨
    ∃ result, progress.done.get? task.taskId = some result ∧ result.state = .failed

/-- A batch of calm tasks. -/
theorem runBatch_calm {P : W → Prop} {batch : List (Task F × ℕ)} {w : W} (hP : P w)
    (h : ∀ e ∈ batch, Calm s P missing e.1) :
    P (s.runBatch batch w).2 ∧
      List.Forall₂ (fun e r => (∃ w', P w' ∧ r = (s.runTask e.1 e.2 w').1) ∧
        (r.state = .success ∨ Misses missing r)) batch (s.runBatch batch w).1 := by
  induction batch generalizing w with
  | nil => exact ⟨hP, .nil⟩
  | cons e batch ih =>
      obtain ⟨task, attempt⟩ := e
      obtain ⟨hhead, hrest⟩ := List.forall_mem_cons.mp h
      obtain ⟨hP', hresult⟩ := hhead attempt w hP
      obtain ⟨hP'', hall⟩ := ih hP' hrest
      rw [runBatch_cons]
      exact ⟨hP'', .cons ⟨⟨w, hP, rfl⟩, hresult⟩ hall⟩

end Results

section Settling

variable {st : RunState W}

/-- A result that misses a stage which is not recomputed again is retried or done. -/
lemma settle_misses (hrec : ∀ task, recover task missing st = .ok (none, st))
    {progress : Progress F} {e : Task F × ℕ} {result : TaskResult F} (h : Misses missing result) :
    s.settle recover (progress, st) (e, result) = .ok
      (if e.2 < s.maxRetries then
        { progress with
          pending := progress.pending ++ [(e.1, e.2 + 1)]
          retriedTaskIds := progress.retriedTaskIds.insert e.1.taskId }
      else { progress with done := progress.done.set e.1.taskId result }, st) := by
  obtain ⟨hstate, hmissing⟩ := h
  simp only [Scheduler.settle, Scheduler.tryRecover, hstate, hmissing, hrec, ExceptList.bind_ok,
    true_and, ExceptList.pure_eq_ok]
  split <;> rfl

/-- A result that misses a stage which is run again sends its task back with new blocks. -/
lemma settle_recovered {st' : RunState W} {progress : Progress F} {e : Task F × ℕ}
    {result : TaskResult F} {task : Task F} (h : Misses missing result)
    (hrec : recover e.1 missing st = .ok (some task, st')) :
    s.settle recover (progress, st) (e, result) =
      .ok ({ progress with pending := progress.pending ++ [(task, e.2)] }, st') := by
  obtain ⟨hstate, hmissing⟩ := h
  simp only [Scheduler.settle, Scheduler.tryRecover, hstate, hmissing, hrec, ExceptList.bind_ok,
    ExceptList.pure_eq_ok]

/-- The results of a batch up to the first that misses a stage which is run again. -/
lemma settleAll_recovered {st' : RunState W} {batch batch' : List (Task F × ℕ)}
    {results results' : List (TaskResult F)} {e : Task F × ℕ} {result : TaskResult F}
    {task : Task F} (hlen : batch.length = results.length)
    (hsuccess : ∀ r ∈ results, r.state = .success) (h : Misses missing result)
    (hrec : recover e.1 missing st = .ok (some task, st')) :
    ((batch ++ e :: batch').zip (results ++ result :: results')).foldlM (s.settle recover)
        (⟨[], OrderedDict.empty, []⟩, st) =
      (batch'.zip results').foldlM (s.settle recover)
        (⟨[(task, e.2)], recordAll (batch.zip results) OrderedDict.empty, []⟩, st') := by
  rw [List.zip_append hlen, List.foldlM_append, settle_all_success hlen hsuccess,
    ExceptList.bind_ok, List.zip_cons_cons, List.foldlM_cons, settle_recovered h hrec,
    ExceptList.bind_ok]
  rfl

/-- Settling a calm result leaves the state alone and sends no other task back, and a doomed
task whose results all fail stays doomed. -/
lemma settle_calm (hrec : ∀ task, recover task missing st = .ok (none, st))
    {progress : Progress F} {e : Task F × ℕ} {result : TaskResult F}
    (h : result.state = .success ∨ Misses missing result) :
    ∃ progress', s.settle recover (progress, st) (e, result) = .ok (progress', st) ∧
      (∀ p ∈ progress'.pending, p ∈ progress.pending ∨ p.1 = e.1) ∧
      ∀ task, (e.1.taskId = task.taskId → e.1 = task ∧ result.state = .failed) →
        Doomed task progress ∨ e.1 = task → Doomed task progress' := by
  by_cases hsuccess : result.state = .success
  · refine ⟨_, settle_success hsuccess, fun p hp => Or.inl hp, fun task hid hdoom => ?_⟩
    have hne : e.1.taskId ≠ task.taskId := by
      intro heq
      rw [hsuccess] at hid
      cases (hid heq).2
    rcases hdoom with (hpending | ⟨r, hr, hfailed⟩) | rfl
    · exact Or.inl hpending
    · refine Or.inr ⟨r, ?_, hfailed⟩
      rw [OrderedDict.get?_set, if_neg (by simpa using hne), hr]
    · exact absurd rfl hne
  · have hmiss := h.resolve_left hsuccess
    refine ⟨_, settle_misses hrec hmiss, ?_, fun task hid hdoom => ?_⟩
    · intro p hp
      split at hp
      · obtain hp | hp := List.mem_append.mp hp
        · exact Or.inl hp
        · have heq : p = (e.1, e.2 + 1) := List.mem_singleton.mp hp
          exact Or.inr (by rw [heq])
      · exact Or.inl hp
    · split
      · rcases hdoom with (⟨a, ha⟩ | hdone) | rfl
        · exact Or.inl ⟨a, List.mem_append_left _ ha⟩
        · exact Or.inr hdone
        · exact Or.inl ⟨e.2 + 1, List.mem_append_right _ List.mem_cons_self⟩
      · by_cases heq : e.1.taskId = task.taskId
        · refine Or.inr ⟨result, ?_, hmiss.1⟩
          rw [OrderedDict.get?_set, if_pos (by simpa using heq)]
        · rcases hdoom with (hpending | ⟨r, hr, hfailed⟩) | rfl
          · exact Or.inl hpending
          · refine Or.inr ⟨r, ?_, hfailed⟩
            rw [OrderedDict.get?_set, if_neg (by simpa using heq), hr]
          · exact absurd rfl heq

/-- Settling calm results one after the other. -/
theorem settleAll_calm (hrec : ∀ task, recover task missing st = .ok (none, st))
    {entries : List ((Task F × ℕ) × TaskResult F)} (progress : Progress F)
    (h : ∀ e ∈ entries, e.2.state = .success ∨ Misses missing e.2) :
    ∃ progress', entries.foldlM (s.settle recover) (progress, st) = .ok (progress', st) ∧
      (∀ p ∈ progress'.pending, p ∈ progress.pending ∨ ∃ e ∈ entries, p.1 = e.1.1) ∧
      ∀ task, (∀ e ∈ entries, e.1.1.taskId = task.taskId →
          e.1.1 = task ∧ e.2.state = .failed) →
        Doomed task progress ∨ (∃ e ∈ entries, e.1.1 = task) → Doomed task progress' := by
  induction entries generalizing progress with
  | nil =>
      refine ⟨progress, rfl, fun p hp => Or.inl hp, fun task _ hdoom => ?_⟩
      exact hdoom.resolve_right (by simp)
  | cons e entries ih =>
      obtain ⟨hhead, hrest⟩ := List.forall_mem_cons.mp h
      obtain ⟨next, hnext, hpending, hkeep⟩ := settle_calm (s := s) (e := e.1) hrec hhead
      obtain ⟨final, hfinal, hpending', hkeep'⟩ := ih next hrest
      refine ⟨final, ?_, fun p hp => ?_, fun task hids hdoom => ?_⟩
      · rw [List.foldlM_cons, hnext, ExceptList.bind_ok, hfinal]
      · rcases hpending' p hp with hp | ⟨e', he', heq⟩
        · rcases hpending p hp with hp | heq
          · exact Or.inl hp
          · exact Or.inr ⟨e, List.mem_cons_self, heq⟩
        · exact Or.inr ⟨e', List.mem_cons_of_mem _ he', heq⟩
      · obtain ⟨hid, hids⟩ := List.forall_mem_cons.mp hids
        refine hkeep' task hids ?_
        rcases hdoom with hdoom | ⟨e', he', heq⟩
        · exact Or.inl (hkeep task hid (Or.inl hdoom))
        · rcases List.mem_cons.mp he' with rfl | he'
          · exact Or.inl (hkeep task hid (Or.inr heq))
          · exact Or.inr ⟨e', he', heq⟩

end Settling

section Loops

variable {P : W → Prop} {task : Task F}

/-- A doomed task has failed for good when the loop ends: the stage it misses is not
recomputed, and all its attempts fail. -/
theorem loop_doomed
    (hrec : ∀ task st, missing ∈ st.recomputedStages → recover task missing st = .ok (none, st))
    (hfails : ∀ attempt w, P w → (s.runTask task attempt w).1.state = .failed) {rounds : ℕ}
    {progress progress' : Progress F} {st st' : RunState W}
    (hrecomputed : missing ∈ st.recomputedStages) (hP : P st.world)
    (hcalm : ∀ e ∈ progress.pending, Calm s P missing e.1)
    (hids : ∀ e ∈ progress.pending, e.1.taskId = task.taskId → e.1 = task)
    (hdoom : Doomed task progress)
    (h : s.loop recover rounds progress st = .ok (progress', st')) :
    ∃ result, progress'.done.get? task.taskId = some result ∧ result.state = .failed := by
  induction rounds generalizing progress st with
  | zero =>
      by_cases hnil : progress.pending = []
      · rw [loop_done s recover 0 st hnil] at h
        cases h
        exact hdoom.resolve_left (by simp [hnil])
      · rw [loop_zero s recover st hnil] at h
        cases h
  | succ rounds ih =>
      by_cases hnil : progress.pending = []
      · rw [loop_done s recover _ st hnil] at h
        cases h
        exact hdoom.resolve_left (by simp [hnil])
      · obtain ⟨hP', hall⟩ := runBatch_calm hP hcalm
        have hentry : ∀ e ∈ progress.pending.zip (s.runBatch progress.pending st.world).1,
            e.1 ∈ progress.pending ∧ (∃ w, P w ∧ e.2 = (s.runTask e.1.1 e.1.2 w).1) ∧
              (e.2.state = .success ∨ Misses missing e.2) :=
          fun e he => ⟨(List.of_mem_zip he).1, (List.forall₂_iff_zip.mp hall).2 he⟩
        have hrecomputed' : missing ∈ ({ st with
            world := (s.runBatch progress.pending st.world).2 } : RunState W).recomputedStages :=
          hrecomputed
        obtain ⟨next, hnext, hpending, hkeep⟩ := settleAll_calm (s := s)
          (fun task => hrec task _ hrecomputed') { progress with pending := [] }
          (fun e he => (hentry e he).2.2)
        rw [loop_succ s recover rounds st hnil, hnext, ExceptList.bind_ok] at h
        have hback : ∀ p ∈ next.pending, ∃ e ∈ progress.pending, p.1 = e.1 := by
          intro p hp
          rcases hpending p hp with hp | ⟨e, he, heq⟩
          · cases hp
          · exact ⟨e.1, (hentry e he).1, heq⟩
        refine ih hrecomputed' hP' (fun p hp => ?_) (fun p hp hid => ?_) (hkeep task ?_ ?_) h
        · obtain ⟨e, he, heq⟩ := hback p hp
          rw [heq]
          exact hcalm e he
        · obtain ⟨e, he, heq⟩ := hback p hp
          rw [heq] at hid ⊢
          exact hids e he hid
        · intro e he hid
          obtain ⟨hmem, ⟨w, hw, hresult⟩, -⟩ := hentry e he
          have htask := hids e.1 hmem hid
          refine ⟨htask, ?_⟩
          rw [hresult, htask]
          exact hfails _ w hw
        · rcases hdoom with ⟨attempt, hmem⟩ | hdone
          · obtain ⟨i, hi, heq⟩ := List.mem_iff_getElem.mp hmem
            have hlen := hall.length_eq
            refine Or.inr ⟨(progress.pending[i], (s.runBatch progress.pending st.world).1[i]), ?_, ?_⟩
            · exact List.mem_iff_getElem.mpr ⟨i, by simp; omega, by simp⟩
            · rw [heq]
          · exact Or.inl (Or.inr hdone)

/-- A run of a stage whose loop ends with a failed task raises. -/
theorem runToCompletion_doomed {rounds : ℕ} {stage : Stage F} {st : RunState W}
    (htask : task ∈ s.makeTasks stage st)
    (h : ∀ progress st', s.loop recover rounds
        ⟨(s.makeTasks stage st).map (fun t => (t, 0)), OrderedDict.empty, []⟩
        { st with nextTaskId := st.nextTaskId + stage.numPartitions } = .ok (progress, st') →
      ∃ result, progress.done.get? task.taskId = some result ∧ result.state = .failed) :
    ∀ outcome, s.runToCompletion recover rounds stage st ≠ .ok outcome := by
  intro outcome hrun
  obtain ⟨⟨progress, st'⟩, hloop, hrun⟩ := ExceptList.bind_eq_ok.mp hrun
  obtain ⟨results, hresults, hrun⟩ := ExceptList.bind_eq_ok.mp hrun
  obtain ⟨result, hget, hfailed⟩ := h progress st' hloop
  obtain ⟨r, hr, hof⟩ := ExceptList.mapM_ok_mem hresults htask
  rw [Scheduler.resultOf, hget] at hof
  cases hof
  have hmem : result ∈ results.filter (fun r => r.state = .failed) :=
    List.mem_filter.mpr ⟨hr, by simpa using hfailed⟩
  split at hrun
  · next hnil =>
      rw [hnil] at hmem
      cases hmem
  · cases hrun

end Loops

end MiniSpark
