import MiniSpark.RunLog
import Mathlib.Algebra.Order.BigOperators.Group.Finset

/-!
# A run ends, and how much work it does

Every call of `run_task` and every run of a stage is paid from a credit. A stage brings
the credit for itself and all its attempts, and each stage that was not yet recomputed
holds the credit for one recomputation and for one more call of the task that asked for
it. The same potential counts down the rounds of a stage and the depth of nested
recomputations, so the bounds the scheduler is given are never reached.
-/
namespace MiniSpark

open Traced

variable {F W : Type}

/-- A price for each call of `run_task` and for each run of a stage. -/
structure Prices where
  call : ℕ
  run : ℕ → ℕ

namespace Prices

def price (c : Prices) : Event → ℕ
  | .stageRun stageId => c.run stageId
  | .taskCall _ _ => c.call

end Prices

namespace Scheduler

variable (s : Scheduler F W) (c : Prices)

/-- The calls a pending attempt can still lead to without a recovery. -/
def callsLeft (attempt : ℕ) : ℕ := s.maxRetries - attempt + 1

/-- One run of a stage without recoveries. -/
def stageCost (stage : Stage F) : ℕ :=
  c.run stage.stageId + stage.numPartitions * (s.callsLeft 0 * c.call)

/-- The recomputation of a stage, and the call that follows it. -/
def recomputeCost (stageId : ℕ) : ℕ :=
  ((s.stagesById.get? stageId).map (s.stageCost c)).getD 0 + c.call

/-- A quantity summed over the stages that can still be recomputed. -/
def outstanding (f : ℕ → ℕ) (recomputed : List ℕ) : ℕ :=
  ∑ stageId ∈ s.stagesById.keys.toFinset \ recomputed.toFinset, f stageId

/-- The credit held for recomputations. -/
def reserve (st : RunState W) : ℕ := s.outstanding (s.recomputeCost c) st.recomputedStages

/-- How many stages can still be recomputed. -/
def unrecomputed (st : RunState W) : ℕ := s.outstanding (fun _ => 1) st.recomputedStages

def pendingCost (pending : List (Task F × ℕ)) : ℕ :=
  (pending.map (fun e => s.callsLeft e.2 * c.call)).sum

/-- What tasks that were just called can still cost. -/
def calledCost (entries : List ((Task F × ℕ) × TaskResult F)) : ℕ :=
  (entries.map (fun e => (s.maxRetries - e.1.2) * c.call)).sum

variable {s c}

theorem outstanding_insert {f : ℕ → ℕ} {recomputed : List ℕ} {stageId : ℕ} {stage : Stage F}
    (hnew : stageId ∉ recomputed) (hknown : s.stagesById.get? stageId = some stage) :
    s.outstanding f recomputed = s.outstanding f (recomputed.insert stageId) + f stageId := by
  have hmem : stageId ∈ s.stagesById.keys.toFinset \ recomputed.toFinset := by
    have hkey : stageId ∈ s.stagesById.keys :=
      OrderedDict.isSome_get?_iff.mp (by rw [hknown]; rfl)
    simp [hkey, hnew]
  have hrest : s.stagesById.keys.toFinset \ (recomputed.insert stageId).toFinset
      = (s.stagesById.keys.toFinset \ recomputed.toFinset).erase stageId := by
    ext id
    simp only [Finset.mem_sdiff, List.mem_toFinset, List.mem_insert_iff, Finset.mem_erase]
    tauto
  unfold outstanding
  rw [hrest, Finset.sum_erase_add _ _ hmem]

section Batch

variable {allowed : RunError → Prop}

theorem runBatch_affords {batch : List (Task F × ℕ)} {w : W} {credit rest : ℕ}
    (h : batch.length * c.call + rest ≤ credit) :
    Affords c.price allowed (s.runBatchLogged batch w) credit
      (fun r left => r = s.runBatch batch w ∧ rest ≤ left) := by
  induction batch generalizing w credit rest with
  | nil => exact affords_pure ⟨rfl, by simpa using h⟩
  | cons entry batch ih =>
      have hsplit : (entry :: batch).length * c.call = batch.length * c.call + c.call := by
        rw [List.length_cons, Nat.succ_mul]
      unfold runBatchLogged
      refine (affords_emit (by simp only [Prices.price]; omega) ?_).bind
      have hbatch : batch.length * c.call + rest ≤ credit - c.call := by omega
      refine ((ih hbatch).imp ?_).bind
      rintro r left ⟨rfl, hleft⟩
      exact affords_pure ⟨rfl, hleft⟩

theorem length_runBatch (batch : List (Task F × ℕ)) (w : W) :
    (s.runBatch batch w).1.length = batch.length := by
  induction batch generalizing w with
  | nil => rfl
  | cons entry batch ih =>
      show (_ :: (s.runBatch batch _).1).length = _
      rw [List.length_cons, List.length_cons, ih]

end Batch

/-- What trying to recover a task does with the credit held for recomputations. -/
def Recovered (s : Scheduler F W) (c : Prices) (st : RunState W)
    (r : Option (Task F) × RunState W) (left : ℕ) : Prop :=
  match r.1 with
  | none => s.unrecomputed r.2 ≤ s.unrecomputed st ∧ s.reserve c r.2 ≤ left
  | some _ => s.unrecomputed r.2 < s.unrecomputed st ∧ s.reserve c r.2 + c.call ≤ left

/-- The bounds of a run are not reached. -/
abbrev NotStuck (e : RunError) : Prop := e ≠ .outOfFuel

/-- Recovery is paid from the reserve while few enough stages can still be recomputed. -/
def RecoveryAffords (s : Scheduler F W) (c : Prices)
    (recover : Task F → ℕ → RunState W → Logged (Option (Task F) × RunState W)) (most : ℕ) : Prop :=
  ∀ task missing st credit, s.unrecomputed st ≤ most → s.reserve c st ≤ credit →
    Affords c.price NotStuck (recover task missing st) credit (s.Recovered c st)

/-- Over the results of one batch: each pending task has used up an attempt, or a stage was
recomputed since the batch began. -/
structure SettleInv (s : Scheduler F W) (c : Prices) (rounds unrecomputed : ℕ)
    (entries : List ((Task F × ℕ) × TaskResult F)) (acc : Progress F × RunState W)
    (left : ℕ) : Prop where
  entries_left : ∀ e ∈ entries, s.callsLeft e.1.2 ≤ rounds
  pending_left : ∀ e ∈ acc.1.pending, s.callsLeft e.2 ≤ rounds
  fewer : s.unrecomputed acc.2 ≤ unrecomputed
  advance : s.unrecomputed acc.2 < unrecomputed ∨
    ∀ e ∈ acc.1.pending, s.callsLeft e.2 < rounds
  paid : s.calledCost c entries + s.pendingCost c acc.1.pending + s.reserve c acc.2 ≤ left

section Loop

variable {recover : Task F → ℕ → RunState W → Logged (Option (Task F) × RunState W)}
variable {most : ℕ}

theorem tryRecover_affords (hrec : s.RecoveryAffords c recover most) {task : Task F}
    {result : TaskResult F} {st : RunState W} {credit : ℕ} (hmost : s.unrecomputed st ≤ most)
    (hcredit : s.reserve c st ≤ credit) :
    Affords c.price NotStuck (tryRecoverLogged recover task result st) credit
      (s.Recovered c st) := by
  unfold tryRecoverLogged
  split
  · exact hrec _ _ _ _ hmost hcredit
  · exact affords_pure ⟨le_rfl, hcredit⟩

theorem pendingCost_append (pending : List (Task F × ℕ)) (e : Task F × ℕ) :
    s.pendingCost c (pending ++ [e]) = s.pendingCost c pending + s.callsLeft e.2 * c.call := by
  simp [pendingCost]

theorem callsLeft_mul (attempt : ℕ) :
    s.callsLeft attempt * c.call = (s.maxRetries - attempt) * c.call + c.call := by
  rw [callsLeft, Nat.succ_mul]

theorem settle_affords (hrec : s.RecoveryAffords c recover most) {rounds unrecomputed : ℕ}
    (hmost : unrecomputed ≤ most) (entry : (Task F × ℕ) × TaskResult F)
    (rest : List ((Task F × ℕ) × TaskResult F)) (acc : Progress F × RunState W) (credit : ℕ)
    (h : s.SettleInv c rounds unrecomputed (entry :: rest) acc credit) :
    Affords c.price NotStuck (s.settleLogged recover acc entry) credit
      (s.SettleInv c rounds unrecomputed rest) := by
  obtain ⟨hentry, hrest⟩ := List.forall_mem_cons.mp h.entries_left
  have hpaid := h.paid
  have hcalled : s.calledCost c (entry :: rest)
      = (s.maxRetries - entry.1.2) * c.call + s.calledCost c rest := by
    simp [calledCost]
  obtain ⟨extra, rfl⟩ : ∃ extra, credit = s.reserve c acc.2 + extra :=
    ⟨credit - s.reserve c acc.2, by omega⟩
  unfold settleLogged
  refine Affords.bind ?_
  refine (tryRecover_affords hrec (h.fewer.trans hmost) le_rfl).frame ?_
  rintro ⟨recovered, st'⟩ left hleft
  apply affords_pure
  have hfewer := h.fewer
  cases recovered with
  | some task' =>
      -- the recomputation pays for calling the task once more on the same attempt
      obtain ⟨hless, hreserve⟩ := hleft
      dsimp only at hless hreserve
      refine ⟨hrest, ?_, by dsimp only; omega, Or.inl (by dsimp only; omega), ?_⟩
      · intro e he
        rcases List.mem_append.mp he with he | he
        · exact h.pending_left e he
        · rw [List.mem_singleton.mp he]
          exact hentry
      · show s.calledCost c rest + s.pendingCost c (acc.1.pending ++ [(task', entry.1.2)])
          + s.reserve c st' ≤ left + extra
        rw [pendingCost_append, callsLeft_mul]
        dsimp only
        omega
  | none =>
      obtain ⟨hless, hreserve⟩ := hleft
      dsimp only at hless hreserve
      have hadvance : s.unrecomputed st' < unrecomputed ∨
          ∀ e ∈ acc.1.pending, s.callsLeft e.2 < rounds := by
        rcases h.advance with hlt | hall
        · exact Or.inl (by omega)
        · exact Or.inr hall
      by_cases hretry : entry.2.state = .failed ∧ entry.1.2 < s.maxRetries
      · have hspent : s.callsLeft (entry.1.2 + 1) + 1 = s.callsLeft entry.1.2 := by
          unfold callsLeft
          omega
        have hcost : s.callsLeft (entry.1.2 + 1) * c.call
            = (s.maxRetries - entry.1.2) * c.call := by
          have hsub : s.callsLeft (entry.1.2 + 1) = s.maxRetries - entry.1.2 := by
            unfold callsLeft
            omega
          rw [hsub]
        simp only [settleRecovered, if_pos hretry]
        refine ⟨hrest, ?_, by dsimp only; omega, ?_, ?_⟩
        · intro e he
          rcases List.mem_append.mp he with he | he
          · exact h.pending_left e he
          · rw [List.mem_singleton.mp he]
            simp only
            omega
        · rcases hadvance with hlt | hall
          · exact Or.inl hlt
          · refine Or.inr (fun e he => ?_)
            rcases List.mem_append.mp he with he | he
            · exact hall e he
            · rw [List.mem_singleton.mp he]
              simp only
              omega
        · simp only [pendingCost_append]
          omega
      · simp only [settleRecovered, if_neg hretry]
        refine ⟨hrest, h.pending_left, by dsimp only; omega, hadvance, ?_⟩
        simp only
        omega

/-- Calling every pending task costs one call each and leaves what the attempts still hold. -/
theorem pendingCost_eq (pending : List (Task F × ℕ)) :
    s.pendingCost c pending = pending.length * c.call
      + (pending.map (fun e => (s.maxRetries - e.2) * c.call)).sum := by
  unfold pendingCost
  induction pending with
  | nil => simp
  | cons e pending ih =>
      rw [List.map_cons, List.sum_cons, List.map_cons, List.sum_cons, ih, callsLeft_mul,
        List.length_cons, Nat.succ_mul]
      omega

theorem calledCost_zip (pending : List (Task F × ℕ)) (w : W) :
    s.calledCost c (pending.zip (s.runBatch pending w).1)
      = (pending.map (fun e => (s.maxRetries - e.2) * c.call)).sum := by
  have hfst := List.map_fst_zip (length_runBatch (s := s) pending w).ge
  unfold calledCost
  conv_rhs => rw [← hfst, List.map_map]
  rfl

/-- One round of the loop: the credit of the pending tasks pays for the batch, and the
results settle. -/
theorem round_affords (hrec : s.RecoveryAffords c recover most) {left credit : ℕ}
    {progress : Progress F} {st : RunState W} (hmost : s.unrecomputed st ≤ most)
    (hleft : ∀ e ∈ progress.pending, s.callsLeft e.2 ≤ left)
    (hcredit : s.pendingCost c progress.pending + s.reserve c st ≤ credit) :
    Affords c.price NotStuck (s.runBatchLogged progress.pending st.world) credit
      (fun batch credit' => Affords c.price NotStuck
        ((progress.pending.zip batch.1).foldlM (s.settleLogged recover)
          ({ progress with pending := [] }, { st with world := batch.2 })) credit'
        (s.SettleInv c left (s.unrecomputed st) [])) := by
  have hbatch : progress.pending.length * c.call + ((progress.pending.map
      (fun e => (s.maxRetries - e.2) * c.call)).sum + s.reserve c st) ≤ credit := by
    rw [pendingCost_eq] at hcredit
    omega
  refine (runBatch_affords hbatch).imp ?_
  rintro _ credit' ⟨rfl, hcredit'⟩
  refine affords_foldlM (I := s.SettleInv c left (s.unrecomputed st))
    (fun entry rest acc credit => settle_affords hrec hmost entry rest acc credit) ?_
  refine ⟨?_, ?_, le_rfl, ?_, ?_⟩
  · intro e he
    exact hleft e.1 (List.of_mem_zip he).1
  · intro e he
    cases he
  · exact Or.inr (fun e he => by cases he)
  · show s.calledCost c (progress.pending.zip (s.runBatch progress.pending st.world).1)
      + s.pendingCost c [] + s.reserve c st ≤ credit'
    rw [calledCost_zip]
    simpa [pendingCost] using hcredit'

theorem loop_affords (hrec : s.RecoveryAffords c recover most) {rounds left : ℕ}
    (progress : Progress F) (st : RunState W) {credit : ℕ} (hmost : s.unrecomputed st ≤ most)
    (hleft : ∀ e ∈ progress.pending, s.callsLeft e.2 ≤ left)
    (hrounds : left + s.unrecomputed st ≤ rounds)
    (hcredit : s.pendingCost c progress.pending + s.reserve c st ≤ credit) :
    Affords c.price NotStuck (s.loopLogged recover rounds progress st) credit
      (fun r rest => s.unrecomputed r.2 ≤ s.unrecomputed st ∧ s.reserve c r.2 ≤ rest) := by
  induction rounds generalizing progress st credit left with
  | zero =>
      unfold loopLogged
      by_cases hpending : progress.pending = []
      · rw [if_pos hpending]
        exact affords_pure ⟨le_rfl, (Nat.le_add_left _ _).trans hcredit⟩
      · obtain ⟨e, he⟩ := List.exists_mem_of_ne_nil _ hpending
        have hchance := hleft e he
        unfold callsLeft at hchance
        omega
  | succ rounds ih =>
      unfold loopLogged
      by_cases hpending : progress.pending = []
      · rw [if_pos hpending]
        exact affords_pure ⟨le_rfl, (Nat.le_add_left _ _).trans hcredit⟩
      · rw [if_neg hpending]
        obtain ⟨e₀, he₀⟩ := List.exists_mem_of_ne_nil _ hpending
        have hchance : 1 ≤ left := (Nat.le_add_left 1 _).trans (hleft e₀ he₀)
        refine Affords.bind ((round_affords hrec hmost hleft hcredit).imp ?_)
        intro batch credit' hsettled
        refine Affords.bind (hsettled.imp ?_)
        rintro ⟨progress', st'⟩ credit'' hinv
        have hpaid := hinv.paid
        have hfewer := hinv.fewer
        simp only [calledCost, List.map_nil, List.sum_nil, Nat.zero_add] at hpaid hfewer
        -- a round without a recomputation uses up one call of every task still pending
        have hnext : ∃ left', (∀ e ∈ progress'.pending, s.callsLeft e.2 ≤ left') ∧
            left' + s.unrecomputed st' ≤ rounds := by
          rcases hinv.advance with hlt | hall
          · dsimp only at hlt
            exact ⟨left, hinv.pending_left, by omega⟩
          · exact ⟨left - 1, fun e he => Nat.le_sub_one_of_lt (hall e he), by omega⟩
        obtain ⟨left', hleft', hrounds'⟩ := hnext
        refine (ih progress' st' (hfewer.trans hmost) hleft' hrounds' hpaid).imp ?_
        rintro r rest ⟨hr, hrest⟩
        exact ⟨hr.trans hfewer, hrest⟩

end Loop

section Stages

theorem collectResults_notStuck {tasks : List (Task F)} {progress : Progress F} {e : RunError}
    (h : s.collectResults tasks progress = .error e) : NotStuck e := by
  unfold collectResults at h
  cases hresults : tasks.mapM (resultOf progress.done) with
  | error e' =>
      rw [hresults] at h
      cases h
      obtain ⟨task, -, htask⟩ := ExceptList.mapM_error hresults
      unfold resultOf at htask
      split at htask
      · cases htask
      · cases htask
        simp
  | ok results =>
      rw [hresults, ExceptList.bind_ok] at h
      split at h
      · cases h
      · cases h
        simp

/-- Running the tasks of a stage is paid by its own credit and the reserve. -/
theorem runToCompletion_affords
    {recover : Task F → ℕ → RunState W → Logged (Option (Task F) × RunState W)}
    {st : RunState W} (hrec : s.RecoveryAffords c recover (s.unrecomputed st)) {rounds credit : ℕ}
    {stage : Stage F} (hrounds : s.callsLeft 0 + s.unrecomputed st ≤ rounds)
    (hcredit : stage.numPartitions * (s.callsLeft 0 * c.call) + s.reserve c st ≤ credit) :
    Affords c.price NotStuck (s.runToCompletionLogged recover rounds stage st) credit
      (fun r rest => s.unrecomputed r.2 ≤ s.unrecomputed st ∧ s.reserve c r.2 ≤ rest) := by
  have hpending : s.pendingCost c ((s.makeTasks stage st).map (fun t => (t, 0)))
      = stage.numPartitions * (s.callsLeft 0 * c.call) := by
    unfold pendingCost makeTasks
    simp [Function.comp_def]
  have hleft : ∀ e ∈ (s.makeTasks stage st).map (fun t => (t, 0)),
      s.callsLeft e.2 ≤ s.callsLeft 0 := by
    intro e he
    obtain ⟨t, -, rfl⟩ := List.mem_map.mp he
    exact le_rfl
  have hloop := loop_affords (c := c) hrec
    ⟨(s.makeTasks stage st).map (fun t => (t, 0)), OrderedDict.empty, []⟩
    { st with nextTaskId := st.nextTaskId + stage.numPartitions } le_rfl hleft hrounds
    (hpending ▸ hcredit)
  unfold runToCompletionLogged
  refine Affords.bind (hloop.imp ?_)
  intro final rest hfinal
  refine (affords_lift ?_ ?_).bind
  · intro results _
    exact affords_pure hfinal
  · exact fun e he => collectResults_notStuck he

/-- The recomputation of a stage is paid by what the reserve holds for it. -/
theorem recover_affords {most rounds : ℕ}
    {recompute : Stage F → RunState W → Logged (List (TaskResult F) × RunState W)}
    (hrec : ∀ stage st credit, s.unrecomputed st < most →
      s.callsLeft 0 + s.unrecomputed st ≤ rounds → s.stageCost c stage + s.reserve c st ≤ credit →
      Affords c.price NotStuck (recompute stage st) credit
        (fun r rest => s.unrecomputed r.2 ≤ s.unrecomputed st ∧ s.reserve c r.2 ≤ rest))
    (hrounds : s.callsLeft 0 + most ≤ rounds) :
    s.RecoveryAffords c (s.recoverLogged recompute) most := by
  intro task missing st credit hmost hcredit
  unfold recoverLogged
  by_cases hmem : missing ∈ st.recomputedStages
  · rw [if_pos hmem]
    exact affords_pure ⟨le_rfl, hcredit⟩
  · rw [if_neg hmem]
    cases hknown : s.stagesById.get? missing with
    | none => exact affords_pure ⟨le_rfl, hcredit⟩
    | some stage =>
        have hfewer : s.unrecomputed st = s.unrecomputed { st with
            recomputedStages := st.recomputedStages.insert missing } + 1 :=
          outstanding_insert hmem hknown
        have hreserve : s.reserve c st = s.reserve c { st with
            recomputedStages := st.recomputedStages.insert missing } + (s.stageCost c stage + c.call) := by
          have hcost : s.recomputeCost c missing = s.stageCost c stage + c.call := by
            unfold recomputeCost
            rw [hknown]
            rfl
          rw [← hcost]
          exact outstanding_insert hmem hknown
        obtain ⟨extra, rfl⟩ : ∃ extra, credit = s.stageCost c stage + s.reserve c { st with
            recomputedStages := st.recomputedStages.insert missing } + (c.call + extra) :=
          ⟨credit - s.reserve c st, by omega⟩
        refine Affords.bind ((hrec stage _ _ (by omega) (by omega) le_rfl).frame ?_)
        rintro ⟨results, st'⟩ rest ⟨hst', hrest⟩
        refine affords_pure ⟨?_, ?_⟩
        · dsimp only at hst' ⊢
          omega
        · dsimp only at hrest ⊢
          omega

theorem runStage_affords {rounds depth : ℕ} {stage : Stage F} {recomputed : Bool}
    {st : RunState W} {credit : ℕ} (hdepth : s.unrecomputed st < depth)
    (hrounds : s.callsLeft 0 + s.unrecomputed st ≤ rounds)
    (hcredit : s.stageCost c stage + s.reserve c st ≤ credit) :
    Affords c.price NotStuck (s.runStageLogged rounds depth stage recomputed st) credit
      (fun r rest => s.unrecomputed r.2 ≤ s.unrecomputed st ∧ s.reserve c r.2 ≤ rest) := by
  induction depth generalizing stage recomputed st credit with
  | zero => omega
  | succ depth ih =>
      have hrec : s.RecoveryAffords c (s.recoverLogged (fun missingStage =>
          s.runStageLogged rounds depth missingStage true)) (s.unrecomputed st) :=
        recover_affords (fun missingStage st' credit' hlt hrounds' hcredit' =>
          ih (by omega) hrounds' hcredit') hrounds
      unfold stageCost at hcredit
      unfold runStageLogged
      refine (affords_emit (by simp only [Prices.price]; omega) ?_).bind
      refine Affords.bind ((runToCompletion_affords hrec hrounds ?_).imp ?_)
      · simp only [Prices.price]
        omega
      · rintro run rest hrun
        exact affords_pure hrun

/-- The loop of `run_plan` is paid by the credit of its stages and the reserve. -/
theorem runStages_affords {rounds depth : ℕ} {stages : List (Stage F)}
    {acc : Option (Dataset F) × RunState W} {credit : ℕ} (hdepth : s.unrecomputed acc.2 < depth)
    (hrounds : s.callsLeft 0 + s.unrecomputed acc.2 ≤ rounds)
    (hcredit : (stages.map (s.stageCost c)).sum + s.reserve c acc.2 ≤ credit) :
    Affords c.price NotStuck (stages.foldlM (s.runNextLogged rounds depth) acc) credit
      (fun _ _ => True) := by
  refine Affords.imp (affords_foldlM (I := fun rest acc left => s.unrecomputed acc.2 < depth ∧
      s.callsLeft 0 + s.unrecomputed acc.2 ≤ rounds ∧
      (rest.map (s.stageCost c)).sum + s.reserve c acc.2 ≤ left) ?_ ⟨hdepth, hrounds, hcredit⟩)
    (fun _ _ _ => trivial)
  · rintro stage rest acc' credit' ⟨hdepth', hrounds', hcredit'⟩
    rw [List.map_cons, List.sum_cons] at hcredit'
    obtain ⟨extra, rfl⟩ : ∃ extra, credit' = s.stageCost c stage + s.reserve c acc'.2 + extra :=
      ⟨credit' - (s.stageCost c stage + s.reserve c acc'.2), by omega⟩
    unfold runNextLogged
    refine Affords.bind ((runStage_affords hdepth' hrounds' le_rfl).frame ?_)
    rintro run left ⟨hfewer, hreserve⟩
    refine affords_pure ⟨?_, ?_, ?_⟩
    · dsimp only
      omega
    · dsimp only
      omega
    · dsimp only
      omega

end Stages

end Scheduler

section RunPlan

variable (maxRetries : ℕ) (runTask : Task F → ℕ → W → TaskResult F × W)
variable (rootDir : String) {stages : List (Stage F)}

/-- A quantity of the stages that can be recomputed at the start: all of them. -/
theorem outstanding_start (hids : (stages.map Stage.stageId).Nodup) (f : ℕ → ℕ) (w : W) :
    (scheduler maxRetries runTask rootDir stages).outstanding f
        (Scheduler.startState w).recomputedStages
      = (stages.map (fun stage => f stage.stageId)).sum := by
  have hpairs : ((stages.map (fun st => (st.stageId, st))).map Prod.fst).Nodup := by
    simpa [Function.comp_def] using hids
  have hkeys : (scheduler maxRetries runTask rootDir stages).stagesById.keys
      = stages.map Stage.stageId := by
    show (OrderedDict.ofList _).keys = _
    rw [OrderedDict.keys_ofList hpairs]
    simp [Function.comp_def]
  unfold Scheduler.outstanding
  rw [hkeys]
  show ∑ stageId ∈ (stages.map Stage.stageId).toFinset \ ∅, f stageId = _
  rw [Finset.sdiff_empty, List.sum_toFinset f hids, List.map_map]
  rfl

/-- A run is paid by two runs of each stage and one call for each recomputation. -/
theorem runPlanLogged_affords (hids : (stages.map Stage.stageId).Nodup) (c : Prices) (w : W) :
    Affords c.price Scheduler.NotStuck (runPlanLogged maxRetries runTask rootDir stages w)
      (2 * (stages.map ((scheduler maxRetries runTask rootDir stages).stageCost c)).sum
        + stages.length * c.call) (fun _ _ => True) := by
  have hunrecomputed : (scheduler maxRetries runTask rootDir stages).unrecomputed
      (Scheduler.startState w) = stages.length := by
    unfold Scheduler.unrecomputed
    rw [outstanding_start _ _ _ hids]
    simp
  have hcost : ∀ stage ∈ stages, (scheduler maxRetries runTask rootDir stages).recomputeCost c
      stage.stageId = (scheduler maxRetries runTask rootDir stages).stageCost c stage + c.call := by
    intro stage hstage
    have hpairs : ((stages.map (fun st => (st.stageId, st))).map Prod.fst).Nodup := by
      simpa [Function.comp_def] using hids
    unfold Scheduler.recomputeCost
    rw [show (scheduler maxRetries runTask rootDir stages).stagesById.get? stage.stageId
      = some stage from OrderedDict.get?_ofList_of_mem hpairs
        (List.mem_map.mpr ⟨stage, hstage, rfl⟩)]
    rfl
  have hreserve : (scheduler maxRetries runTask rootDir stages).reserve c (Scheduler.startState w)
      = (stages.map ((scheduler maxRetries runTask rootDir stages).stageCost c)).sum
        + stages.length * c.call := by
    unfold Scheduler.reserve
    rw [outstanding_start _ _ _ hids, List.map_congr_left hcost, List.sum_map_add]
    simp
  unfold runPlanLogged
  refine Affords.bind ((Scheduler.runStages_affords (c := c) ?_ ?_ ?_).imp ?_)
  · show Scheduler.unrecomputed _ (Scheduler.startState w) < _
    omega
  · show Scheduler.callsLeft _ 0 + Scheduler.unrecomputed _ (Scheduler.startState w) ≤ _
    rw [hunrecomputed]
    exact le_rfl
  · show _ + Scheduler.reserve _ c (Scheduler.startState w) ≤ _
    omega
  · intro final left _
    cases final.1 with
    | some dataset => exact affords_pure trivial
    | none =>
        refine affords_lift (fun _ _ => trivial) ?_
        rintro e ⟨⟩
        simp [Scheduler.NotStuck]

end RunPlan

/-- How often a stage was run as a whole. -/
def stageRuns (log : List Event) (stageId : ℕ) : ℕ := log.count (.stageRun stageId)

/-- How often `run_task` was called. -/
def taskCalls (log : List Event) : ℕ :=
  log.countP (fun | .taskCall _ _ => true | .stageRun _ => false)

/-- Only the runs of one stage have a price. -/
def onlyRuns (stageId : ℕ) : Prices := ⟨0, fun id => if id = stageId then 1 else 0⟩

/-- Only the calls of `run_task` have a price. -/
def onlyCalls : Prices := ⟨1, fun _ => 0⟩

theorem cost_onlyRuns (log : List Event) (stageId : ℕ) :
    cost (onlyRuns stageId).price log = stageRuns log stageId := by
  refine cost_eq_countP (fun e => ?_) log
  cases e with
  | stageRun id =>
      by_cases hid : id = stageId
      · simp [Prices.price, onlyRuns, hid]
      · simp [Prices.price, onlyRuns, hid]
  | taskCall taskId attempt => simp [Prices.price, onlyRuns]

theorem cost_onlyCalls (log : List Event) : cost onlyCalls.price log = taskCalls log := by
  refine cost_eq_countP (fun e => ?_) log
  cases e with
  | stageRun id => rfl
  | taskCall taskId attempt => rfl

/-- Every run of `run_plan` returns or raises within the bounds the scheduler is given,
runs each stage at most twice, and makes a bounded number of calls; the log is that of the run. -/
theorem runPlan_bounded (maxRetries : ℕ) (runTask : Task F → ℕ → W → TaskResult F × W)
    (rootDir : String) (stages : List (Stage F)) (w : W)
    (hids : (stages.map Stage.stageId).Nodup) :
    (runPlanLogged maxRetries runTask rootDir stages w).result =
        runPlan maxRetries runTask rootDir stages w ∧
      runPlan maxRetries runTask rootDir stages w ≠ .error .outOfFuel ∧
      (∀ stageId, stageRuns (runPlanLogged maxRetries runTask rootDir stages w).trace stageId ≤ 2) ∧
      taskCalls (runPlanLogged maxRetries runTask rootDir stages w).trace
        ≤ 2 * (maxRetries + 1) * (stages.map Stage.numPartitions).sum + stages.length := by
  refine ⟨runPlanLogged_result maxRetries runTask rootDir stages w, ?_, ?_, ?_⟩
  · intro h
    rw [← runPlanLogged_result] at h
    exact (runPlanLogged_affords maxRetries runTask rootDir hids onlyCalls w).raises _ h rfl
  · intro stageId
    have hpaid := (runPlanLogged_affords maxRetries runTask rootDir hids (onlyRuns stageId) w).paid
    have honce : (stages.map ((scheduler maxRetries runTask rootDir stages).stageCost
        (onlyRuns stageId))).sum ≤ 1 := by
      have hsum : (stages.map ((scheduler maxRetries runTask rootDir stages).stageCost
          (onlyRuns stageId))).sum = (stages.map Stage.stageId).count stageId := by
        rw [List.count, ← cost_eq_countP (fun _ => by simp; rfl), cost, List.map_map]
        refine congrArg List.sum (List.map_congr_left (fun stage _ => ?_))
        simp [Scheduler.stageCost, onlyRuns]
      rw [hsum]
      exact List.nodup_iff_count_le_one.mp hids stageId
    rw [cost_onlyRuns] at hpaid
    simp only [onlyRuns, Nat.mul_zero, Nat.add_zero] at hpaid honce
    omega
  · have hpaid := (runPlanLogged_affords maxRetries runTask rootDir hids onlyCalls w).paid
    have hsum : (stages.map ((scheduler maxRetries runTask rootDir stages).stageCost
        onlyCalls)).sum = (maxRetries + 1) * (stages.map Stage.numPartitions).sum := by
      rw [← List.sum_map_mul_left]
      refine congrArg List.sum (List.map_congr_left (fun stage _ => ?_))
      show 0 + stage.numPartitions * ((maxRetries - 0 + 1) * 1)
        = (maxRetries + 1) * stage.numPartitions
      rw [Nat.sub_zero, Nat.mul_one, Nat.zero_add, Nat.mul_comm]
    rw [cost_onlyCalls, hsum, ← Nat.mul_assoc] at hpaid
    simpa [onlyCalls] using hpaid

section Examples

/-- Two stages over an empty table. -/
def twoStages : List (Stage ℚ) :=
  [⟨0, .scanExec (rowsDataset ⟨[], by decide⟩ []) "memory", 2⟩,
    ⟨1, .scanExec (rowsDataset ⟨[], by decide⟩ []) "memory", 1⟩]

/-- Every call fails and blames a stage that changes with each call, one of them unknown. -/
def blameAnyStage (task : Task ℚ) (_attempt calls : ℕ) : TaskResult ℚ × ℕ :=
  (⟨task.taskId, .failed, [], TaskMetrics.empty, none, [], some (calls % 3)⟩, calls + 1)

theorem runPlan_bounded_blamed :
    (runPlanLogged 1 blameAnyStage "root" twoStages 0).result =
        runPlan 1 blameAnyStage "root" twoStages 0 ∧
      runPlan 1 blameAnyStage "root" twoStages 0 ≠ .error .outOfFuel ∧
      (∀ stageId, stageRuns (runPlanLogged 1 blameAnyStage "root" twoStages 0).trace stageId ≤ 2) ∧
      taskCalls (runPlanLogged 1 blameAnyStage "root" twoStages 0).trace ≤ 14 :=
  runPlan_bounded 1 blameAnyStage "root" twoStages 0 (by decide)

end Examples

end MiniSpark
