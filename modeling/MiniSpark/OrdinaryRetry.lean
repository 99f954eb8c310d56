import MiniSpark.RunBounds

/-!
# Ordinary retry

When no failure names a missing stage, the rounds of a stage are a race of its tasks: in
round `k` exactly the tasks are pending that failed every attempt before, and a task is
done with its first success or its last allowed attempt.
-/
namespace MiniSpark

open Traced

variable {F W : Type}

section Attempts

/-- The attempt a task ends with: its first success, or the last it is allowed. -/
def lastAttempt (maxRetries : ℕ) (attempts : ℕ → TaskResult F) : ℕ :=
  ((List.range maxRetries).find? (fun a => (attempts a).state = .success)).getD maxRetries

variable {maxRetries : ℕ} {attempts : ℕ → TaskResult F}

lemma failed_of_not_success {result : TaskResult F} (h : ¬ result.state = .success) :
    result.state = .failed := by
  cases hs : result.state with
  | success => exact absurd hs h
  | failed => rfl

lemma lastAttempt_cases (maxRetries : ℕ) (attempts : ℕ → TaskResult F) :
    (lastAttempt maxRetries attempts = maxRetries ∧
      ∀ a < maxRetries, (attempts a).state = .failed) ∨
    (lastAttempt maxRetries attempts < maxRetries ∧
      (attempts (lastAttempt maxRetries attempts)).state = .success ∧
      ∀ a < lastAttempt maxRetries attempts, (attempts a).state = .failed) := by
  unfold lastAttempt
  cases hfind : (List.range maxRetries).find? (fun a => (attempts a).state = .success) with
  | none =>
      refine Or.inl ⟨rfl, fun a ha => failed_of_not_success ?_⟩
      have hnone := List.find?_eq_none.mp hfind a (List.mem_range.mpr ha)
      simpa using hnone
  | some k =>
      obtain ⟨hk, hlt, hbefore⟩ := List.find?_range_eq_some.mp hfind
      rw [List.mem_range] at hlt
      refine Or.inr ⟨hlt, by simpa using hk, fun a ha => failed_of_not_success ?_⟩
      have := hbefore a ha
      simpa using this

lemma lastAttempt_le : lastAttempt maxRetries attempts ≤ maxRetries := by
  obtain ⟨h, -⟩ | ⟨h, -⟩ := lastAttempt_cases maxRetries attempts
  · exact h.le
  · exact h.le

/-- The attempts before the last one failed. -/
lemma failed_before_last {a : ℕ} (h : a < lastAttempt maxRetries attempts) :
    (attempts a).state = .failed := by
  obtain ⟨hlast, hfailed⟩ | ⟨-, -, hfailed⟩ := lastAttempt_cases maxRetries attempts
  · exact hfailed a (hlast ▸ h)
  · exact hfailed a h

/-- An attempt is followed by another one when it failed and another one is allowed. -/
lemma lt_lastAttempt_iff {a : ℕ} (h : a ≤ lastAttempt maxRetries attempts) :
    a < lastAttempt maxRetries attempts ↔ (attempts a).state = .failed ∧ a < maxRetries := by
  constructor
  · intro hlt
    exact ⟨failed_before_last hlt, lt_of_lt_of_le hlt lastAttempt_le⟩
  · rintro ⟨hfailed, hlt⟩
    obtain ⟨hlast, -⟩ | ⟨-, hsuccess, -⟩ := lastAttempt_cases maxRetries attempts
    · omega
    · refine lt_of_le_of_ne h (fun heq => ?_)
      rw [← heq, hfailed] at hsuccess
      cases hsuccess

/-- The last attempt succeeds exactly when one of the allowed attempts would. -/
lemma lastAttempt_success_iff :
    (attempts (lastAttempt maxRetries attempts)).state = .success ↔
      ∃ a ≤ maxRetries, (attempts a).state = .success := by
  constructor
  · intro h
    exact ⟨_, lastAttempt_le, h⟩
  · rintro ⟨a, ha, hsuccess⟩
    obtain ⟨hlast, hfailed⟩ | ⟨-, hlast, -⟩ := lastAttempt_cases maxRetries attempts
    · obtain rfl | hlt := ha.eq_or_lt
      · rw [hlast]
        exact hsuccess
      · rw [hfailed a hlt] at hsuccess
        cases hsuccess
    · exact hlast

end Attempts

namespace Scheduler

/-- The attempt numbers of the calls of one task, in the order of the calls. -/
def attemptsOf (taskId : ℕ) (log : List Event) : List ℕ :=
  log.filterMap (fun event => match event with
    | .taskCall id attempt => if id = taskId then some attempt else none
    | .stageRun _ => none)

/-- The outcomes of the tasks follow a pattern in which no failure names a stage. -/
structure Ordinary (s : Scheduler F W) (tasks : List (Task F)) (out : Task F → ℕ → TaskResult F) :
    Prop where
  ids : (tasks.map Task.taskId).Nodup
  outcome : ∀ task ∈ tasks, ∀ attempt w, (s.runTask task attempt w).1 = out task attempt
  unblamed : ∀ task ∈ tasks, ∀ attempt, (out task attempt).state = .failed →
    (out task attempt).missingShuffleStageId = none

variable {s : Scheduler F W} {tasks : List (Task F)} {out : Task F → ℕ → TaskResult F}
variable {recover : Task F → ℕ → RunState W → Logged (Option (Task F) × RunState W)}
variable {k : ℕ} {progress : Progress F}

section Batch

theorem runBatchLogged_trace (batch : List (Task F × ℕ)) (w : W) :
    (s.runBatchLogged batch w).trace = batch.map (fun e => .taskCall e.1.taskId e.2) := by
  induction batch generalizing w with
  | nil => rfl
  | cons entry batch ih =>
      unfold runBatchLogged
      rw [bind_of_ok (result_emit _), bind_of_ok (runBatchLogged_result batch _), ih, trace_pure,
        trace_emit, List.append_nil]
      rfl

/-- The results of a batch are the outcomes of its attempts. -/
lemma Ordinary.runBatch (h : s.Ordinary tasks out) {ts : List (Task F)}
    (hts : ∀ t ∈ ts, t ∈ tasks) (k : ℕ) (w : W) :
    (s.runBatch (ts.map (fun t => (t, k))) w).1 = ts.map (fun t => out t k) := by
  induction ts generalizing w with
  | nil => rfl
  | cons t ts ih =>
      obtain ⟨ht, hts⟩ := List.forall_mem_cons.mp hts
      show (s.runTask t k w).1 :: (s.runBatch (ts.map (fun t => (t, k))) _).1 = _
      rw [h.outcome t ht, ih hts]
      rfl

/-- A result that names no stage is settled without recovery. -/
lemma settleLogged_ordinary {entry : (Task F × ℕ) × TaskResult F}
    (h : entry.2.state = .failed → entry.2.missingShuffleStageId = none)
    (acc : Progress F × RunState W) :
    s.settleLogged recover acc entry = pure (s.settleRecovered acc.1 entry none, acc.2) := by
  have hnone : tryRecoverLogged recover entry.1.1 entry.2 acc.2 = pure (none, acc.2) := by
    unfold tryRecoverLogged
    cases hs : entry.2.state with
    | success => rfl
    | failed => rw [h hs]
  unfold settleLogged
  rw [hnone]
  rfl

lemma foldlM_settle_ordinary {entries : List ((Task F × ℕ) × TaskResult F)}
    (h : ∀ e ∈ entries, e.2.state = .failed → e.2.missingShuffleStageId = none)
    (progress : Progress F) (st : RunState W) :
    entries.foldlM (s.settleLogged recover) (progress, st) =
      pure (entries.foldl (fun p e => s.settleRecovered p e none) progress, st) := by
  induction entries generalizing progress with
  | nil => rfl
  | cons e entries ih =>
      obtain ⟨he, hrest⟩ := List.forall_mem_cons.mp h
      rw [List.foldlM_cons, settleLogged_ordinary he, List.foldl_cons]
      exact ih hrest _

end Batch

section Rounds

/-- The attempt a task of the pattern ends with. -/
def last (s : Scheduler F W) (out : Task F → ℕ → TaskResult F) (task : Task F) : ℕ :=
  lastAttempt s.maxRetries (out task)

/-- Settling the results of round `k`: the tasks that go on are pending in their order,
the others are done. -/
lemma foldl_settle_round {ts : List (Task F)} {k : ℕ} (hk : ∀ t ∈ ts, k ≤ s.last out t)
    (progress : Progress F) :
    (ts.map (fun t => ((t, k), out t k))).foldl (fun p e => s.settleRecovered p e none) progress =
      { pending := progress.pending ++
          (ts.filter (fun t => k < s.last out t)).map (fun t => (t, k + 1))
        done := ((ts.filter (fun t => ¬ k < s.last out t)).map
          (fun t => (t.taskId, out t k))).foldl (fun d kv => d.set kv.1 kv.2) progress.done
        retriedTaskIds := (ts.filter (fun t => k < s.last out t)).foldl
          (fun ids t => ids.insert t.taskId) progress.retriedTaskIds } := by
  induction ts generalizing progress with
  | nil => simp
  | cons t ts ih =>
      obtain ⟨ht, hrest⟩ := List.forall_mem_cons.mp hk
      have hiff := lt_lastAttempt_iff ht
      rw [List.map_cons, List.foldl_cons, ih hrest]
      by_cases hlt : k < s.last out t
      · have hstep : s.settleRecovered progress ((t, k), out t k) none =
            { progress with
              pending := progress.pending ++ [(t, k + 1)]
              retriedTaskIds := progress.retriedTaskIds.insert t.taskId } := if_pos (hiff.mp hlt)
        rw [hstep, List.filter_cons_of_pos (by simpa using hlt),
          List.filter_cons_of_neg (by simpa using hlt)]
        simp only [List.map_cons, List.foldl_cons, List.append_assoc, List.singleton_append]
      · have hstep : s.settleRecovered progress ((t, k), out t k) none =
            { progress with done := progress.done.set t.taskId (out t k) } :=
          if_neg (fun h => hlt (hiff.mpr h))
        rw [hstep, List.filter_cons_of_neg (by simpa using hlt),
          List.filter_cons_of_pos (by simpa using hlt)]
        rfl

lemma mem_foldl_insert {ts : List (Task F)} {ids : List ℕ} {id : ℕ} :
    id ∈ ts.foldl (fun ids t => ids.insert t.taskId) ids ↔
      id ∈ ids ∨ ∃ t ∈ ts, t.taskId = id := by
  induction ts generalizing ids with
  | nil => simp
  | cons t ts ih =>
      rw [List.foldl_cons, ih, List.mem_insert_iff]
      simp only [List.mem_cons, exists_eq_or_imp]
      tauto

lemma nodup_foldl_insert {ts : List (Task F)} {ids : List ℕ} (h : ids.Nodup) :
    (ts.foldl (fun ids t => ids.insert t.taskId) ids).Nodup := by
  induction ts generalizing ids with
  | nil => exact h
  | cons t ts ih => exact ih h.insert

/-- Before round `k`: the tasks still in the race are pending, every other one is done
with its last attempt, and those that went on once were retried. -/
structure AtRound (s : Scheduler F W) (tasks : List (Task F)) (out : Task F → ℕ → TaskResult F)
    (k : ℕ) (progress : Progress F) : Prop where
  pending : progress.pending = (tasks.filter (fun t => k ≤ s.last out t)).map (fun t => (t, k))
  done : ∀ t ∈ tasks, s.last out t < k →
    progress.done.get? t.taskId = some (out t (s.last out t))
  nodup : progress.retriedTaskIds.Nodup
  retried : ∀ id, id ∈ progress.retriedTaskIds ↔
    ∃ t ∈ tasks, t.taskId = id ∧ 0 < s.last out t ∧ 0 < k

lemma atRound_zero (s : Scheduler F W) (tasks : List (Task F)) (out : Task F → ℕ → TaskResult F) :
    s.AtRound tasks out 0 ⟨tasks.map (fun t => (t, 0)), OrderedDict.empty, []⟩ := by
  refine ⟨?_, fun t _ h => absurd h (Nat.not_lt_zero _), List.nodup_nil, by simp⟩
  rw [List.filter_eq_self.mpr (by simp)]

/-- One round. -/
lemma AtRound.step (h : s.AtRound tasks out k progress) (hids : (tasks.map Task.taskId).Nodup) :
    s.AtRound tasks out (k + 1) (((tasks.filter (fun t => k ≤ s.last out t)).map
      (fun t => ((t, k), out t k))).foldl (fun p e => s.settleRecovered p e none)
        { progress with pending := [] }) := by
  set active := tasks.filter (fun t => k ≤ s.last out t) with hactive
  have hmem : ∀ t, t ∈ active ↔ t ∈ tasks ∧ k ≤ s.last out t := by
    intro t
    rw [hactive, List.mem_filter, decide_eq_true_iff]
  rw [foldl_settle_round (fun t ht => ((hmem t).mp ht).2)]
  have hfinished : (((active.filter (fun t => ¬ k < s.last out t)).map
      (fun t => (t.taskId, out t k))).map Prod.fst).Nodup := by
    rw [List.map_map]
    exact hids.sublist ((List.filter_sublist.trans List.filter_sublist).map _)
  refine ⟨?_, fun t ht hlt => ?_, nodup_foldl_insert h.nodup, fun id => ?_⟩
  · show [] ++ _ = _
    rw [List.nil_append, hactive, List.filter_filter]
    congr 1
    refine List.filter_congr (fun t _ => ?_)
    rw [← Bool.decide_and, decide_eq_decide]
    omega
  · by_cases hnow : s.last out t = k
    · refine OrderedDict.get?_foldl_set_of_mem hfinished _ (List.mem_map.mpr ⟨t, ?_, ?_⟩)
      · rw [List.mem_filter, decide_eq_true_iff]
        exact ⟨(hmem t).mpr ⟨ht, by omega⟩, by omega⟩
      · rw [hnow]
    · -- a task that was done before has another id than those that end now
      refine (OrderedDict.get?_foldl_set_of_notMem _ (fun hin => ?_)).trans
        (h.done t ht (by omega))
      simp only [List.map_map, List.mem_map, List.mem_filter, Function.comp_apply, hmem] at hin
      obtain ⟨t', ⟨⟨ht', hk'⟩, -⟩, hid⟩ := hin
      obtain rfl := List.inj_on_of_nodup_map hids ht' ht hid
      omega
  · rw [mem_foldl_insert, h.retried id]
    simp only [List.mem_filter, hmem, decide_eq_true_iff]
    constructor
    · rintro (⟨t, ht, hid, hlast, -⟩ | ⟨t, ⟨⟨ht, -⟩, hlt⟩, hid⟩)
      · exact ⟨t, ht, hid, hlast, Nat.succ_pos k⟩
      · exact ⟨t, ht, hid, by omega, Nat.succ_pos k⟩
    · rintro ⟨t, ht, hid, hlast, -⟩
      by_cases hk : 0 < k
      · exact Or.inl ⟨t, ht, hid, hlast, hk⟩
      · exact Or.inr ⟨t, ⟨⟨ht, by omega⟩, by omega⟩, hid⟩

/-- When no task is pending the race is over. -/
lemma AtRound.of_pending_nil (h : s.AtRound tasks out k progress) (hk : k ≤ s.maxRetries + 1)
    (hnil : progress.pending = []) : s.AtRound tasks out (s.maxRetries + 1) progress ∧
      ∀ t ∈ tasks, s.last out t < k := by
  have hlast : ∀ t ∈ tasks, s.last out t < k := by
    have hfilter := h.pending
    rw [hnil] at hfilter
    have hnone := List.filter_eq_nil_iff.mp (List.map_eq_nil_iff.mp hfilter.symm)
    intro t ht
    have := hnone t ht
    rw [decide_eq_true_iff] at this
    omega
  refine ⟨⟨?_, fun t ht _ => h.done t ht (hlast t ht), h.nodup, fun id => ?_⟩, hlast⟩
  · rw [hnil, eq_comm, List.map_eq_nil_iff, List.filter_eq_nil_iff]
    intro t ht
    have := hlast t ht
    rw [decide_eq_true_iff]
    omega
  · rw [h.retried id]
    constructor
    · rintro ⟨t, ht, hid, hpos, -⟩
      exact ⟨t, ht, hid, hpos, by omega⟩
    · rintro ⟨t, ht, hid, hpos, -⟩
      have := hlast t ht
      exact ⟨t, ht, hid, hpos, by omega⟩

end Rounds

section Log

lemma attemptsOf_append (id : ℕ) (log log' : List Event) :
    attemptsOf id (log ++ log') = attemptsOf id log ++ attemptsOf id log' :=
  List.filterMap_append

/-- A batch calls each of its tasks once. -/
lemma attemptsOf_batch {ts : List (Task F)} (hids : (ts.map Task.taskId).Nodup) (k id : ℕ) :
    attemptsOf id (ts.map (fun t => .taskCall t.taskId k)) =
      if id ∈ ts.map Task.taskId then [k] else [] := by
  induction ts with
  | nil => rfl
  | cons t ts ih =>
      rw [List.map_cons, List.nodup_cons] at hids
      have hcons : attemptsOf id ((t :: ts).map (fun t => .taskCall t.taskId k)) =
          (if t.taskId = id then [k] else []) ++
            attemptsOf id (ts.map (fun t => .taskCall t.taskId k)) := by
        by_cases hid : t.taskId = id
        · simp [attemptsOf, hid]
        · simp [attemptsOf, hid]
      rw [hcons, ih hids.2]
      by_cases hid : t.taskId = id
      · rw [if_pos hid, if_neg (hid ▸ hids.1), if_pos (by simp [hid])]
        rfl
      · simp [hid, Ne.symm hid]

end Log

section Loop

/-- The rounds from `k` on: every task makes its attempts from `k` to its last one. -/
theorem loop_ordinary (h : s.Ordinary tasks out) {rounds : ℕ} {st : RunState W}
    (hat : s.AtRound tasks out k progress) (hk : k ≤ s.maxRetries + 1)
    (hrounds : s.maxRetries + 1 ≤ k + rounds) :
    ∃ progress' st', (s.loopLogged recover rounds progress st).result = .ok (progress', st') ∧
      s.AtRound tasks out (s.maxRetries + 1) progress' ∧
      ∀ t ∈ tasks, attemptsOf t.taskId (s.loopLogged recover rounds progress st).trace =
        List.range' k (s.last out t + 1 - k) := by
  induction rounds generalizing k progress st with
  | zero =>
      obtain rfl : k = s.maxRetries + 1 := by omega
      have hnil : progress.pending = [] := by
        rw [hat.pending, List.map_eq_nil_iff, List.filter_eq_nil_iff]
        intro t _
        have : s.last out t ≤ s.maxRetries := lastAttempt_le
        rw [decide_eq_true_iff]
        omega
      have hloop : s.loopLogged recover 0 progress st = pure (progress, st) := by
        unfold loopLogged
        exact if_pos hnil
      refine ⟨progress, st, by rw [hloop]; rfl, hat, fun t ht => ?_⟩
      have : s.last out t ≤ s.maxRetries := lastAttempt_le
      rw [hloop, Nat.sub_eq_zero_of_le (by omega)]
      rfl
  | succ rounds ih =>
      by_cases hnil : progress.pending = []
      · have hloop : s.loopLogged recover (rounds + 1) progress st = pure (progress, st) := by
          unfold loopLogged
          exact if_pos hnil
        obtain ⟨hover, hlast⟩ := hat.of_pending_nil hk hnil
        refine ⟨progress, st, by rw [hloop]; rfl, hover, fun t ht => ?_⟩
        have := hlast t ht
        rw [hloop, Nat.sub_eq_zero_of_le (by omega)]
        rfl
      · set active := tasks.filter (fun t => k ≤ s.last out t) with hactive
        have hsub : ∀ t ∈ active, t ∈ tasks := fun t ht => (List.mem_filter.mp ht).1
        set progress' := (active.map (fun t => ((t, k), out t k))).foldl
          (fun p e => s.settleRecovered p e none) { progress with pending := [] } with hprogress
        set w := (s.runBatch progress.pending st.world).2 with hw
        have hzip : progress.pending.zip (s.runBatch progress.pending st.world).1 =
            active.map (fun t => ((t, k), out t k)) := by
          rw [hat.pending, h.runBatch hsub, List.zip_map']
        have hunblamed : ∀ e ∈ active.map (fun t => ((t, k), out t k)), e.2.state = .failed →
            e.2.missingShuffleStageId = none := by
          intro e he
          obtain ⟨t, ht, rfl⟩ := List.mem_map.mp he
          exact h.unblamed t (hsub t ht) k
        have hloop : s.loopLogged recover (rounds + 1) progress st =
            (s.runBatchLogged progress.pending st.world >>= fun batch =>
              (progress.pending.zip batch.1).foldlM (s.settleLogged recover)
                ({ progress with pending := [] }, { st with world := batch.2 }) >>= fun next =>
              s.loopLogged recover rounds next.1 next.2) := by
          conv_lhs => unfold loopLogged
          exact if_neg hnil
        have hbatch := runBatchLogged_result (s := s) progress.pending st.world
        have hsettle : ((active.map (fun t => ((t, k), out t k))).foldlM (s.settleLogged recover)
            ({ progress with pending := [] }, { st with world := w })) =
              pure (progress', { st with world := w }) :=
          foldlM_settle_ordinary hunblamed _ _
        have hk' : k ≤ s.maxRetries := by
          by_contra hlt
          refine hnil ?_
          rw [hat.pending, List.map_eq_nil_iff, List.filter_eq_nil_iff]
          intro t _
          have : s.last out t ≤ s.maxRetries := lastAttempt_le
          rw [decide_eq_true_iff]
          omega
        obtain ⟨final, st', hresult, hfinal, hlog⟩ :=
          @ih (k + 1) progress' { st with world := w } (hat.step h.ids) (by omega) (by omega)
        refine ⟨final, st', ?_, hfinal, fun t ht => ?_⟩
        · rw [hloop, result_bind, hbatch, ExceptList.bind_ok, result_bind, hzip, hsettle]
          exact hresult
        · rw [hloop, bind_of_ok hbatch, hzip, hsettle, attemptsOf_append, runBatchLogged_trace,
            hat.pending, List.map_map]
          show attemptsOf t.taskId (active.map (fun t => .taskCall t.taskId k)) ++
            attemptsOf t.taskId (s.loopLogged recover rounds progress' _).trace = _
          rw [attemptsOf_batch (h.ids.sublist (List.filter_sublist.map _)), hlog t ht]
          by_cases hactive' : k ≤ s.last out t
          · have hcount : s.last out t + 1 - k = s.last out t + 1 - (k + 1) + 1 := by omega
            rw [if_pos (List.mem_map_of_mem (List.mem_filter.mpr ⟨ht, by simpa using hactive'⟩)),
              hcount, List.range'_succ]
            rfl
          · have hnot : t.taskId ∉ active.map Task.taskId := by
              intro hin
              obtain ⟨t', ht', hid⟩ := List.mem_map.mp hin
              obtain rfl := List.inj_on_of_nodup_map h.ids (hsub t' ht') ht hid
              exact hactive' (by simpa using (List.mem_filter.mp ht').2)
            rw [if_neg hnot, Nat.sub_eq_zero_of_le (by omega), Nat.sub_eq_zero_of_le (by omega)]
            rfl

end Loop

section Stage

variable {stage : Stage F} {st : RunState W} {outcome : ℕ → ℕ → TaskResult F}

/-- The tasks of a stage have different ids. -/
lemma makeTasks_ids (stage : Stage F) (st : RunState W) :
    (s.makeTasks stage st).map Task.taskId =
      (List.range stage.numPartitions).map (fun pid => st.nextTaskId + pid) := by
  rw [makeTasks, List.map_map]
  rfl

lemma makeTasks_ordinary
    (hout : ∀ task ∈ s.makeTasks stage st, ∀ attempt w,
      (s.runTask task attempt w).1 = outcome task.partitionId attempt)
    (hblame : ∀ pid < stage.numPartitions, ∀ attempt, (outcome pid attempt).state = .failed →
      (outcome pid attempt).missingShuffleStageId = none) :
    s.Ordinary (s.makeTasks stage st) (fun task => outcome task.partitionId) := by
  refine ⟨?_, hout, fun task htask attempt => ?_⟩
  · rw [makeTasks_ids]
    exact List.nodup_range.map (fun a b h => by simpa using h)
  · obtain ⟨pid, hpid, rfl⟩ := List.mem_map.mp htask
    exact hblame pid (List.mem_range.mp hpid) attempt

/-- The results of a stage whose tasks have all ended. -/
lemma AtRound.mapM_resultOf
    (h : s.AtRound (s.makeTasks stage st) (fun task => outcome task.partitionId)
      (s.maxRetries + 1) progress) :
    (s.makeTasks stage st).mapM (resultOf progress.done) =
      .ok ((List.range stage.numPartitions).map
        (fun pid => outcome pid (lastAttempt s.maxRetries (outcome pid)))) := by
  rw [ExceptList.mapM_ok_of_forall
    (g := fun task => outcome task.partitionId (lastAttempt s.maxRetries (outcome task.partitionId)))]
  · rw [makeTasks, List.map_map]
    rfl
  · intro task htask
    unfold resultOf
    rw [h.done task htask (Nat.lt_succ_of_le lastAttempt_le)]
    rfl

/-- The tasks that were retried are those whose first attempt failed. -/
lemma AtRound.length_retried
    (h : s.AtRound (s.makeTasks stage st) (fun task => outcome task.partitionId)
      (s.maxRetries + 1) progress) :
    progress.retriedTaskIds.length = ((List.range stage.numPartitions).filter
      (fun pid => 0 < lastAttempt s.maxRetries (outcome pid))).length := by
  have hperm : progress.retriedTaskIds.Perm (((List.range stage.numPartitions).filter
      (fun pid => 0 < lastAttempt s.maxRetries (outcome pid))).map
        (fun pid => st.nextTaskId + pid)) := by
    refine (List.perm_ext_iff_of_nodup h.nodup ?_).mpr (fun id => ?_)
    · exact (List.nodup_range.filter _).map (fun a b hab => by simpa using hab)
    · rw [h.retried id]
      simp only [List.mem_map, List.mem_filter, makeTasks, decide_eq_true_iff]
      constructor
      · rintro ⟨task, ⟨pid, hpid, rfl⟩, hid, hlast, -⟩
        exact ⟨pid, ⟨hpid, hlast⟩, hid⟩
      · rintro ⟨pid, ⟨hpid, hlast⟩, hid⟩
        exact ⟨_, ⟨pid, hpid, rfl⟩, hid, hlast, Nat.succ_pos _⟩
  rw [hperm.length_eq, List.length_map]

/-- The number of tasks that failed at least once. -/
def failedOnce (maxRetries numTasks : ℕ) (outcome : ℕ → ℕ → TaskResult F) : ℕ :=
  ((List.range numTasks).filter (fun pid =>
    (List.range (lastAttempt maxRetries (outcome pid) + 1)).any
      (fun a => (outcome pid a).state = .failed))).length

lemma failedOnce_eq {maxRetries numTasks : ℕ} (h : ∀ pid < numTasks,
      (outcome pid (lastAttempt maxRetries (outcome pid))).state = .success) :
    failedOnce maxRetries numTasks outcome = ((List.range numTasks).filter
      (fun pid => 0 < lastAttempt maxRetries (outcome pid))).length := by
  unfold failedOnce
  congr 1
  refine List.filter_congr (fun pid hpid => ?_)
  rw [Bool.eq_iff_iff, List.any_eq_true, decide_eq_true_iff]
  simp only [decide_eq_true_iff]
  constructor
  · rintro ⟨a, ha, hfailed⟩
    rw [List.mem_range] at ha
    have hne : a ≠ lastAttempt maxRetries (outcome pid) := by
      rintro rfl
      rw [h pid (List.mem_range.mp hpid)] at hfailed
      cases hfailed
    omega
  · intro hpos
    exact ⟨0, List.mem_range.mpr (Nat.succ_pos _), failed_before_last hpos⟩

/-- What a run of the tasks of a stage does with a pattern of outcomes: it returns if every
task succeeds in time, then with the first successes in partition order and the number of
tasks that failed at least once; it raises otherwise; and each task is called with attempt
numbers 0, 1, 2, … until it succeeds or has no attempt left. -/
structure RetriesExactly (s : Scheduler F W) (numTasks firstTaskId : ℕ)
    (outcome : ℕ → ℕ → TaskResult F)
    (run : Logged ((List (TaskResult F) × ℕ) × RunState W)) : Prop where
  returns_iff : (∃ r, run.result = .ok r) ↔
    ∀ pid < numTasks, ∃ a ≤ s.maxRetries, (outcome pid a).state = .success
  results : ∀ results retried st', run.result = .ok ((results, retried), st') →
    results = (List.range numTasks).map
      (fun pid => outcome pid (lastAttempt s.maxRetries (outcome pid))) ∧
    (∀ r ∈ results, r.state = .success) ∧ retried = failedOnce s.maxRetries numTasks outcome
  raises : ∀ e, run.result = .error e → ∃ failed firstId firstError,
    e = .taskExecutionError failed numTasks s.maxRetries firstId firstError
  attempts : ∀ pid < numTasks,
    attemptsOf (firstTaskId + pid) run.trace =
        List.range (lastAttempt s.maxRetries (outcome pid) + 1) ∧
      (∀ a < lastAttempt s.maxRetries (outcome pid), (outcome pid a).state = .failed) ∧
      ((outcome pid (lastAttempt s.maxRetries (outcome pid))).state = .success ∨
        lastAttempt s.maxRetries (outcome pid) = s.maxRetries)

/-- What the run of a stage returns, once its tasks have all ended. -/
lemma AtRound.collectResults
    (h : s.AtRound (s.makeTasks stage st) (fun task => outcome task.partitionId)
      (s.maxRetries + 1) progress) :
    ((∀ pid < stage.numPartitions,
        (outcome pid (lastAttempt s.maxRetries (outcome pid))).state = .success) ∧
      s.collectResults (s.makeTasks stage st) progress =
        .ok ((List.range stage.numPartitions).map
          (fun pid => outcome pid (lastAttempt s.maxRetries (outcome pid))),
          failedOnce s.maxRetries stage.numPartitions outcome)) ∨
    ((∃ pid < stage.numPartitions,
        (outcome pid (lastAttempt s.maxRetries (outcome pid))).state = .failed) ∧
      ∃ failed firstId firstError, s.collectResults (s.makeTasks stage st) progress =
        .error (.taskExecutionError failed stage.numPartitions s.maxRetries firstId firstError)) := by
  set results := (List.range stage.numPartitions).map
    (fun pid => outcome pid (lastAttempt s.maxRetries (outcome pid))) with hresults
  have hlength : results.length = stage.numPartitions := by
    rw [hresults, List.length_map, List.length_range]
  unfold Scheduler.collectResults
  rw [h.mapM_resultOf, ExceptList.bind_ok]
  cases hfailed : results.filter (fun r => r.state = .failed) with
  | nil =>
      have hsuccess : ∀ pid < stage.numPartitions,
          (outcome pid (lastAttempt s.maxRetries (outcome pid))).state = .success := by
        intro pid hpid
        have hnot := List.filter_eq_nil_iff.mp hfailed _
          (List.mem_map_of_mem (List.mem_range.mpr hpid))
        cases hs : (outcome pid (lastAttempt s.maxRetries (outcome pid))).state with
        | success => rfl
        | failed => simp [hs] at hnot
      refine Or.inl ⟨hsuccess, ?_⟩
      rw [failedOnce_eq hsuccess, ← h.length_retried]
      rfl
  | cons first rest =>
      have hmem : first ∈ results.filter (fun r => r.state = .failed) := by
        rw [hfailed]
        exact List.mem_cons_self
      obtain ⟨hfirst, hstate⟩ := List.mem_filter.mp hmem
      obtain ⟨pid, hpid, rfl⟩ := List.mem_map.mp hfirst
      refine Or.inr ⟨⟨pid, List.mem_range.mp hpid, by simpa using hstate⟩, rest.length + 1,
        (outcome pid (lastAttempt s.maxRetries (outcome pid))).taskId,
        (outcome pid (lastAttempt s.maxRetries (outcome pid))).error, ?_⟩
      show Except.error (RunError.taskExecutionError _ results.length _ _ _) = _
      rw [hlength]

/-- Ordinary retry is exact. -/
theorem runToCompletion_retriesExactly {rounds : ℕ} (hrounds : s.maxRetries < rounds)
    (hout : ∀ task ∈ s.makeTasks stage st, ∀ attempt w,
      (s.runTask task attempt w).1 = outcome task.partitionId attempt)
    (hblame : ∀ pid < stage.numPartitions, ∀ attempt, (outcome pid attempt).state = .failed →
      (outcome pid attempt).missingShuffleStageId = none)
    (recover : Task F → ℕ → RunState W → Logged (Option (Task F) × RunState W)) :
    (s.runToCompletionLogged recover rounds stage st).result =
        s.runToCompletion (fun task id st => (recover task id st).result) rounds stage st ∧
      RetriesExactly s stage.numPartitions st.nextTaskId outcome
        (s.runToCompletionLogged recover rounds stage st) := by
  refine ⟨runToCompletionLogged_result (fun _ _ _ => rfl) rounds stage st, ?_⟩
  obtain ⟨progress, st', hloop, hat, hlog⟩ :=
    loop_ordinary (makeTasks_ordinary hout hblame) (atRound_zero s _ _) (Nat.zero_le _)
      ((Nat.zero_add rounds).symm ▸ hrounds)
  have htrace : (s.runToCompletionLogged recover rounds stage st).trace =
      (s.loopLogged recover rounds
        ⟨(s.makeTasks stage st).map (fun t => (t, 0)), OrderedDict.empty, []⟩
        { st with nextTaskId := st.nextTaskId + stage.numPartitions }).trace := by
    unfold runToCompletionLogged
    rw [bind_of_ok hloop]
    cases hc : s.collectResults (s.makeTasks stage st) progress with
    | error e =>
        rw [bind_of_error (by rw [result_lift])]
        exact List.append_nil _
    | ok r =>
        rw [bind_of_ok (by rw [result_lift])]
        exact List.append_nil _
  have hresult : (s.runToCompletionLogged recover rounds stage st).result =
      (s.collectResults (s.makeTasks stage st) progress >>= fun results => .ok (results, st')) := by
    unfold runToCompletionLogged
    rw [result_bind, hloop, ExceptList.bind_ok, result_bind, result_lift]
    rfl
  have hattempts : ∀ pid < stage.numPartitions,
      attemptsOf (st.nextTaskId + pid) (s.runToCompletionLogged recover rounds stage st).trace =
        List.range (lastAttempt s.maxRetries (outcome pid) + 1) := by
    intro pid hpid
    rw [htrace, List.range_eq_range']
    exact hlog _ (List.mem_map_of_mem (List.mem_range.mpr hpid))
  have hends : ∀ pid, (∀ a < lastAttempt s.maxRetries (outcome pid),
        (outcome pid a).state = .failed) ∧
      ((outcome pid (lastAttempt s.maxRetries (outcome pid))).state = .success ∨
        lastAttempt s.maxRetries (outcome pid) = s.maxRetries) := by
    intro pid
    refine ⟨fun a ha => failed_before_last ha, ?_⟩
    obtain ⟨hlast, -⟩ | ⟨-, hsuccess, -⟩ := lastAttempt_cases s.maxRetries (outcome pid)
    · exact Or.inr hlast
    · exact Or.inl hsuccess
  have hall := fun pid hpid => And.intro (hattempts pid hpid) (hends pid)
  obtain ⟨hsuccess, hcollect⟩ | ⟨⟨pid, hpid, hfailed⟩, failed, firstId, firstError, hcollect⟩ :=
    hat.collectResults
  · rw [hcollect, ExceptList.bind_ok] at hresult
    refine ⟨?_, ?_, ?_, hall⟩
    · exact iff_of_true ⟨_, hresult⟩
        (fun pid hpid => lastAttempt_success_iff.mp (hsuccess pid hpid))
    · intro results retried st'' h
      rw [hresult] at h
      cases h
      refine ⟨rfl, fun r hr => ?_, rfl⟩
      obtain ⟨pid, hpid, rfl⟩ := List.mem_map.mp hr
      exact hsuccess pid (List.mem_range.mp hpid)
    · intro e h
      rw [hresult] at h
      cases h
  · rw [hcollect, ExceptList.bind_error] at hresult
    refine ⟨?_, ?_, ?_, hall⟩
    · refine iff_of_false ?_ (fun h => ?_)
      · rintro ⟨r, hr⟩
        rw [hresult] at hr
        cases hr
      · rw [lastAttempt_success_iff.mpr (h pid hpid)] at hfailed
        cases hfailed
    · intro results retried st'' h
      rw [hresult] at h
      cases h
    · intro e h
      rw [hresult] at h
      cases h
      exact ⟨failed, firstId, firstError, rfl⟩

end Stage

section Examples

/-- Partition 1 fails once, every other attempt succeeds. -/
def flakyOutcome (pid attempt : ℕ) : TaskResult ℚ :=
  if pid = 1 ∧ attempt = 0 then
    ⟨pid, .failed, [], TaskMetrics.empty, some (.valueError "flaky"), [], none⟩
  else ⟨pid, .success, [OrderedDict.ofList [("x", .int pid)]], TaskMetrics.empty, none, [], none⟩

/-- One retry; the world counts the calls. -/
def flakyScheduler : Scheduler ℚ ℕ :=
  scheduler 1 (fun task attempt calls => (flakyOutcome task.partitionId attempt, calls + 1)) "root" []

/-- Three empty partitions. -/
def threeTasks : Stage ℚ := ⟨0, .scanExec (rowsDataset ⟨[], List.nodup_nil⟩ []) "memory", 3⟩

theorem runToCompletion_retriesExactly_flaky :
    (flakyScheduler.runToCompletionLogged (fun _ _ st => pure (none, st)) 2 threeTasks
        (startState 0)).result =
      flakyScheduler.runToCompletion (fun _ _ st => .ok (none, st)) 2 threeTasks (startState 0) ∧
    RetriesExactly flakyScheduler 3 0 flakyOutcome
      (flakyScheduler.runToCompletionLogged (fun _ _ st => pure (none, st)) 2 threeTasks
        (startState 0)) :=
  runToCompletion_retriesExactly (by decide) (fun _ _ _ _ => rfl)
    (fun pid _ attempt _ => by
      unfold flakyOutcome
      split
      · rfl
      · rfl)
    (fun _ _ st => pure (none, st))

end Examples

end Scheduler

end MiniSpark
