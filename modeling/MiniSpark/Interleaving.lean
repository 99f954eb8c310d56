import Mathlib.Data.List.Forall2
import Mathlib.Logic.Hydra
import Mathlib.Logic.Relation
import MiniSpark.Processes

/-!
# Pools of processes

A pool runs several processes over one store in any interleaving of their accesses, some of
them not yet started, no more than a given number at a time. No run can go on for ever and none
gets stuck. When no process writes what another one touches, every complete run of the pool ends
as the processes do when they run one after the other.
-/

/-- Where a process of a pool stands. -/
inductive PoolEntry (K V α : Type)
  | waiting (p : Process K V α)
  | running (p : Process K V α)
  | finished (a : α)

namespace PoolEntry

variable {K V α : Type}

/-- What the process still has to do. -/
def rest : PoolEntry K V α → Process K V α
  | .waiting p => p
  | .running p => p
  | .finished a => .done a

def isWaiting : PoolEntry K V α → Bool
  | .waiting _ => true
  | _ => false

def isRunning : PoolEntry K V α → Bool
  | .running _ => true
  | _ => false

end PoolEntry

/-- The entries of a pool in their order, and the store they share. -/
structure Pool (K V α : Type) where
  entries : List (PoolEntry K V α)
  store : Store K V

namespace Pool

variable {K V α : Type} [DecidableEq K]

def start (ps : List (Process K V α)) (σ : Store K V) : Pool K V α := ⟨ps.map .waiting, σ⟩

/-- What one entry of a pool does next. The first waiting entry starts when a worker is free;
a running one makes its next access or hands in its value. -/
inductive EntryStep (workers : ℕ) (before after : List (PoolEntry K V α)) (σ : Store K V) :
    PoolEntry K V α → PoolEntry K V α → Store K V → Prop
  | start (p : Process K V α) (hfirst : ∀ e ∈ before, e.isWaiting = false)
      (hfree : (before ++ after).countP PoolEntry.isRunning < workers) :
      EntryStep workers before after σ (.waiting p) (.running p) σ
  | read (k : K) (next : Option V → Process K V α) :
      EntryStep workers before after σ (.running (.read k next)) (.running (next (σ k))) σ
  | write (k : K) (v : V) (next : Process K V α) :
      EntryStep workers before after σ (.running (.write k v next)) (.running next) (σ.put k v)
  | finish (a : α) : EntryStep workers before after σ (.running (.done a)) (.finished a) σ

/-- One entry of the pool takes a step. -/
inductive Step (workers : ℕ) : Pool K V α → Pool K V α → Prop
  | entry {before after : List (PoolEntry K V α)} {σ σ' : Store K V} {e e' : PoolEntry K V α}
      (h : EntryStep workers before after σ e e' σ') :
      Step workers ⟨before ++ e :: after, σ⟩ ⟨before ++ e' :: after, σ'⟩

/-- Every entry has handed in its value. -/
def Finished (pool : Pool K V α) : Prop := ∃ as : List α, pool.entries = as.map .finished

/-- A complete run of a pool: the values in the order of the processes, and the store left. -/
def Runs (workers : ℕ) (ps : List (Process K V α)) (σ : Store K V) (as : List α) (σ' : Store K V) :
    Prop :=
  Relation.ReflTransGen (Step workers) (start ps σ) ⟨as.map .finished, σ'⟩

end Pool

/-- A process with the cells it may read and those it may write. -/
structure Job (K V α : Type) where
  process : Process K V α
  reads : K → Prop
  writes : K → Prop
  within : process.Within reads writes

namespace Job

variable {K V α : Type} [DecidableEq K]

/-- What one writes the other one does not touch. -/
def Apart (j j' : Job K V α) : Prop :=
  ∀ k, (j.writes k → ¬ (j'.reads k ∨ j'.writes k)) ∧ (j'.writes k → ¬ (j.reads k ∨ j.writes k))

omit [DecidableEq K] in
theorem Apart.symm {j j' : Job K V α} (h : j.Apart j') : j'.Apart j := fun k => (h k).symm

/-- What is left of the job in one store ends as the job does in another one. -/
structure Toward (σ₀ σ : Store K V) (j : Job K V α) (e : PoolEntry K V α) : Prop where
  within : e.rest.Within j.reads j.writes
  value : (e.rest.run σ).1 = (j.process.run σ₀).1
  store : ∀ k, j.writes k → (e.rest.run σ).2 k = (j.process.run σ₀).2 k

/-- The steps of another job change nothing for this one. -/
theorem Toward.other {σ₀ σ σ' : Store K V} {j : Job K V α} {e : PoolEntry K V α}
    (h : Toward σ₀ σ j e) (hsame : ∀ k, j.reads k ∨ j.writes k → σ' k = σ k) :
    Toward σ₀ σ' j e := by
  obtain ⟨hend, hstore⟩ := h.within.agree hsame
  exact ⟨h.within, hend.trans h.value, fun k hk => (hstore k hk).trans (h.store k hk)⟩

end Job

namespace Pool

variable {K V α : Type} [DecidableEq K] {workers : ℕ} {jobs : List (Job K V α)} {σ₀ : Store K V}

/-- What holds of every pool that the jobs come to. -/
structure OnTheWay (jobs : List (Job K V α)) (σ₀ : Store K V) (pool : Pool K V α) : Prop where
  toward : List.Forall₂ (Job.Toward σ₀ pool.store) jobs pool.entries
  frame : ∀ k, (∀ j ∈ jobs, ¬ j.writes k) → pool.store k = σ₀ k

/-- What an entry does next belongs to its own job. -/
theorem EntryStep.toward {before after : List (PoolEntry K V α)} {σ σ' : Store K V}
    {e e' : PoolEntry K V α} {j : Job K V α} (h : EntryStep workers before after σ e e' σ')
    (ht : Job.Toward σ₀ σ j e) :
    Job.Toward σ₀ σ' j e' ∧ ∀ k, ¬ j.writes k → σ' k = σ k := by
  cases h with
  | start p _ _ => exact ⟨⟨ht.within, ht.value, ht.store⟩, fun _ _ => rfl⟩
  | read k next => exact ⟨⟨ht.within.2 _, ht.value, ht.store⟩, fun _ _ => rfl⟩
  | write k v next =>
      refine ⟨⟨ht.within.2, ht.value, ht.store⟩, fun k' hk' => ?_⟩
      have hne : k' ≠ k := fun h => hk' (h ▸ ht.within.1)
      exact Store.put_of_ne σ v hne
  | finish a => exact ⟨⟨trivial, ht.value, ht.store⟩, fun _ _ => rfl⟩

theorem onTheWay_start (jobs : List (Job K V α)) (σ₀ : Store K V) :
    OnTheWay jobs σ₀ (start (jobs.map Job.process) σ₀) := by
  refine ⟨?_, fun _ _ => rfl⟩
  rw [start, List.map_map, List.forall₂_map_right_iff, List.forall₂_same]
  exact fun j _ => ⟨j.within, rfl, fun _ _ => rfl⟩

/-- The entries of jobs that are apart from the one that takes a step. -/
lemma toward_others {j : Job K V α} {js : List (Job K V α)} {es : List (PoolEntry K V α)}
    {σ σ' : Store K V} (hsame : ∀ k, ¬ j.writes k → σ' k = σ k)
    (hapart : ∀ j' ∈ js, j.Apart j') (h : List.Forall₂ (Job.Toward σ₀ σ) js es) :
    List.Forall₂ (Job.Toward σ₀ σ') js es := by
  induction h with
  | nil => exact .nil
  | @cons j' e js es hj _ ih =>
      obtain ⟨hj', hjs⟩ := List.forall_mem_cons.mp hapart
      exact .cons (hj.other (fun k hk => hsame k (fun hw => (hj' k).1 hw hk))) (ih hjs)

/-- One step keeps the pool on its way. -/
theorem Step.onTheWay (hapart : jobs.Pairwise Job.Apart) {pool pool' : Pool K V α}
    (hstep : Step workers pool pool') (h : OnTheWay jobs σ₀ pool) :
    OnTheWay jobs σ₀ pool' := by
  cases hstep with
  | @entry before after σ σ' e e' hentry =>
      have hsplit : List.Forall₂ (Job.Toward σ₀ σ) jobs (before ++ e :: after) := h.toward
      have hbefore := List.forall₂_take_append _ _ _ hsplit
      have hrest := List.forall₂_drop_append _ _ _ hsplit
      obtain ⟨j, js, hj, hafter, hdrop⟩ := List.forall₂_cons_right_iff.mp hrest
      have hjobs : jobs.take before.length ++ j :: js = jobs := by
        rw [← hdrop, List.take_append_drop]
      rw [← hjobs, List.pairwise_append, List.pairwise_cons] at hapart
      obtain ⟨hj', hsame⟩ := hentry.toward hj
      have hbefore' := toward_others hsame
        (fun j' hj' => (hapart.2.2 j' hj' j List.mem_cons_self).symm) hbefore
      have hafter' := toward_others hsame hapart.2.1.1 hafter
      refine ⟨?_, fun k hk => ?_⟩
      · rw [← hjobs]
        exact List.rel_append hbefore' (.cons hj' hafter')
      · have hmem : j ∈ jobs := hjobs ▸ List.mem_append_right _ List.mem_cons_self
        exact (hsame k (hk j hmem)).trans (h.frame k hk)

/-- A run keeps the pool on its way. -/
theorem onTheWay_of_steps (hapart : jobs.Pairwise Job.Apart) {pool pool' : Pool K V α}
    (hsteps : Relation.ReflTransGen (Step workers) pool pool') (h : OnTheWay jobs σ₀ pool) :
    OnTheWay jobs σ₀ pool' := by
  induction hsteps with
  | refl => exact h
  | tail _ hstep ih => exact hstep.onTheWay hapart ih

/-- The values and the store that a complete run ends with. -/
theorem Runs.outcome (hapart : jobs.Pairwise Job.Apart) {as : List α} {σ : Store K V}
    (h : Runs workers (jobs.map Job.process) σ₀ as σ) :
    as = jobs.map (fun j => (j.process.run σ₀).1) ∧
      (∀ j ∈ jobs, ∀ k, j.writes k → σ k = (j.process.run σ₀).2 k) ∧
      ∀ k, (∀ j ∈ jobs, ¬ j.writes k) → σ k = σ₀ k := by
  have hway := onTheWay_of_steps hapart h (onTheWay_start jobs σ₀)
  have htoward : List.Forall₂ (fun j a => Job.Toward σ₀ σ j (.finished a)) jobs as :=
    List.forall₂_map_right_iff.mp hway.toward
  refine ⟨?_, fun j hj k hk => ?_, hway.frame⟩
  · rw [← List.forall₂_eq_eq_eq, List.forall₂_map_right_iff]
    exact htoward.flip.imp (fun _ _ h => h.value)
  · obtain ⟨i, hi, rfl⟩ := List.getElem_of_mem hj
    have hlen : i < as.length := htoward.length_eq ▸ hi
    exact (htoward.get hi hlen).store k hk

/-- Running the jobs one after the other ends the same way. -/
theorem runEach_outcome (hapart : jobs.Pairwise Job.Apart) (σ₀ : Store K V) :
    (Process.runEach (jobs.map Job.process) σ₀).1 = jobs.map (fun j => (j.process.run σ₀).1) ∧
      (∀ j ∈ jobs, ∀ k, j.writes k →
        (Process.runEach (jobs.map Job.process) σ₀).2 k = (j.process.run σ₀).2 k) ∧
      ∀ k, (∀ j ∈ jobs, ¬ j.writes k) →
        (Process.runEach (jobs.map Job.process) σ₀).2 k = σ₀ k := by
  induction jobs generalizing σ₀ with
  | nil => simp [Process.runEach]
  | cons j jobs ih =>
      obtain ⟨hj, hjobs⟩ := List.pairwise_cons.mp hapart
      obtain ⟨hvalues, hown, hframe⟩ := ih hjobs (j.process.run σ₀).2
      have hsame : ∀ j' ∈ jobs, ∀ k, j'.reads k ∨ j'.writes k →
          (j.process.run σ₀).2 k = σ₀ k := fun j' hj' k hk =>
        j.within.frame σ₀ (fun hw => (hj j' hj' k).1 hw hk)
      simp only [List.map_cons, Process.runEach]
      refine ⟨?_, ?_, fun k hk => ?_⟩
      · rw [hvalues]
        congr 1
        exact List.map_congr_left (fun j' hj' => (j'.within.agree (hsame j' hj')).1)
      · intro j' hj' k hk
        rcases List.mem_cons.mp hj' with rfl | hj'
        · refine hframe k (fun j'' hj'' hw => ?_)
          exact (hj j'' hj'' k).1 hk (.inr hw)
        · exact (hown j' hj' k hk).trans ((j'.within.agree (hsame j' hj')).2 k hk)
      · obtain ⟨hk, hks⟩ := List.forall_mem_cons.mp hk
        exact (hframe k hks).trans (j.within.frame σ₀ hk)

/-- Every complete run of jobs that are apart ends as they do one after the other. -/
theorem Runs.eq_runEach (hapart : jobs.Pairwise Job.Apart) {as : List α} {σ : Store K V}
    (h : Runs workers (jobs.map Job.process) σ₀ as σ) :
    Process.runEach (jobs.map Job.process) σ₀ = (as, σ) := by
  obtain ⟨hvalues, hown, hframe⟩ := h.outcome hapart
  obtain ⟨hvalues', hown', hframe'⟩ := runEach_outcome hapart σ₀
  refine Prod.ext (hvalues'.trans hvalues.symm) ?_
  ext k : 1
  by_cases hk : ∃ j ∈ jobs, j.writes k
  · obtain ⟨j, hj, hw⟩ := hk
    exact (hown' j hj k hw).trans (hown j hj k hw).symm
  · have hno : ∀ j ∈ jobs, ¬ j.writes k := fun j hj hw => hk ⟨j, hj, hw⟩
    exact (hframe' k hno).trans (hframe k hno).symm

section Progress

/-- A running process that makes all its accesses before another entry takes a step. -/
lemma steps_alone (before after : List (PoolEntry K V α)) (p : Process K V α) (σ : Store K V) :
    Relation.ReflTransGen (Step workers) ⟨before ++ .running p :: after, σ⟩
      ⟨before ++ .finished (p.run σ).1 :: after, (p.run σ).2⟩ := by
  induction p generalizing σ with
  | done a => exact .single (.entry (.finish a))
  | read k next ih => exact .head (.entry (.read k next)) (ih (σ k) σ)
  | write k v next ih => exact .head (.entry (.write k v next)) (ih (σ.put k v))

/-- The run in which each process starts once the one before it has ended. -/
lemma steps_in_order (hworkers : 0 < workers) (ps : List (Process K V α)) (ended : List α)
    (σ : Store K V) :
    Relation.ReflTransGen (Step workers) ⟨ended.map .finished ++ ps.map .waiting, σ⟩
      ⟨(ended ++ (Process.runEach ps σ).1).map .finished, (Process.runEach ps σ).2⟩ := by
  induction ps generalizing ended σ with
  | nil => simp [Process.runEach, Relation.ReflTransGen.refl]
  | cons p ps ih =>
      have hstart : Step workers ⟨ended.map .finished ++ .waiting p :: ps.map .waiting, σ⟩
          ⟨ended.map .finished ++ .running p :: ps.map .waiting, σ⟩ := by
        refine .entry (.start p ?_ ?_)
        · simp [PoolEntry.isWaiting]
        · simpa [List.countP_map, Function.comp_def, PoolEntry.isRunning] using hworkers
      have hrest := ih (ended ++ [(p.run σ).1]) (p.run σ).2
      simp only [List.map_append, List.map_cons, List.map_nil, List.append_assoc,
        List.singleton_append] at hrest
      simp only [Process.runEach, List.map_append, List.map_cons]
      exact .head hstart ((steps_alone _ _ p σ).trans hrest)

/-- Running the processes one after the other is one of the runs of a pool. -/
theorem runs_in_order (hworkers : 0 < workers) (ps : List (Process K V α)) (σ : Store K V) :
    Runs workers ps σ (Process.runEach ps σ).1 (Process.runEach ps σ).2 :=
  steps_in_order hworkers ps [] σ

omit [DecidableEq K] in
/-- An entry that still has work to do, the first one that waits if none is running. -/
lemma exists_active (entries : List (PoolEntry K V α))
    (hleft : ∀ as : List α, entries ≠ as.map .finished) :
    (∃ before p after, entries = before ++ .running p :: after) ∨
      (∀ e ∈ entries, e.isRunning = false) ∧
        ∃ before p after, entries = before ++ .waiting p :: after ∧
          ∀ e ∈ before, e.isWaiting = false := by
  induction entries with
  | nil => exact absurd rfl (hleft [])
  | cons e entries ih =>
      cases e with
      | running p => exact .inl ⟨[], p, entries, rfl⟩
      | finished a =>
          have hrest : ∀ as : List α, entries ≠ as.map .finished := by
            intro as h
            exact hleft (a :: as) (by rw [h, List.map_cons])
          rcases ih hrest with ⟨before, p, after, rfl⟩ | ⟨hidle, before, p, after, rfl, hfirst⟩
          · exact .inl ⟨.finished a :: before, p, after, rfl⟩
          · refine .inr ⟨List.forall_mem_cons.mpr ⟨rfl, hidle⟩, .finished a :: before, p, after, rfl,
              List.forall_mem_cons.mpr ⟨rfl, hfirst⟩⟩
      | waiting p =>
          by_cases hrun : ∃ e ∈ entries, e.isRunning = true
          · obtain ⟨e, he, hrun⟩ := hrun
            obtain ⟨before, after, rfl⟩ := List.append_of_mem he
            cases e with
            | running q => exact .inl ⟨.waiting p :: before, q, after, rfl⟩
            | waiting q => cases hrun
            | finished a => cases hrun
          · refine .inr ⟨List.forall_mem_cons.mpr ⟨rfl, fun e he => ?_⟩, [], p, entries, rfl, by simp⟩
            simpa using fun h => hrun ⟨e, he, h⟩

/-- With a worker at all, a pool that has not ended can take a step. -/
theorem exists_step (hworkers : 0 < workers) (pool : Pool K V α)
    (hleft : ¬ pool.Finished) : ∃ pool', Step workers pool pool' := by
  obtain ⟨entries, σ⟩ := pool
  rcases exists_active entries (fun as has => hleft ⟨as, has⟩) with
    ⟨before, p, after, rfl⟩ | ⟨hidle, before, p, after, rfl, hfirst⟩
  · cases p with
    | done a => exact ⟨_, .entry (.finish a)⟩
    | read k next => exact ⟨_, .entry (.read k next)⟩
    | write k v next => exact ⟨_, .entry (.write k v next)⟩
  · have hnone : (before ++ after).countP PoolEntry.isRunning = 0 := by
      rw [List.countP_eq_zero]
      intro e he
      simp only [List.mem_append] at he
      simp [hidle e (by simp only [List.mem_append, List.mem_cons]; tauto)]
    exact ⟨_, .entry (.start p hfirst (by omega))⟩

/-- What an entry can become in one step, whatever it reads. -/
inductive Nearer : PoolEntry K V α → PoolEntry K V α → Prop
  | start (p : Process K V α) : Nearer (.running p) (.waiting p)
  | read (k : K) (next : Option V → Process K V α) (v : Option V) :
      Nearer (.running (next v)) (.running (.read k next))
  | write (k : K) (v : V) (next : Process K V α) : Nearer (.running next) (.running (.write k v next))
  | finish (a : α) : Nearer (.finished a) (.running (.done a))

omit [DecidableEq K] in
lemma acc_finished (a : α) : Acc (@Nearer K V α) (.finished a) :=
  ⟨_, fun _ h => by cases h⟩

omit [DecidableEq K] in
lemma acc_running (p : Process K V α) : Acc Nearer (.running p) := by
  induction p with
  | done a =>
      refine ⟨_, fun e h => ?_⟩
      cases h
      exact acc_finished a
  | read k next ih =>
      refine ⟨_, fun e h => ?_⟩
      cases h with
      | read _ _ v => exact ih v
  | write k v next ih =>
      refine ⟨_, fun e h => ?_⟩
      cases h
      exact ih

omit [DecidableEq K] in
theorem nearer_wellFounded : WellFounded (@Nearer K V α) := by
  refine ⟨fun e => ?_⟩
  cases e with
  | finished a => exact acc_finished a
  | running p => exact acc_running p
  | waiting p =>
      refine ⟨_, fun e h => ?_⟩
      cases h
      exact acc_running p

/-- No pool can go on for ever: each step takes one of its entries nearer to its end. -/
theorem step_wellFounded : WellFounded (fun pool' pool : Pool K V α => Step workers pool pool') := by
  have hwf := (@nearer_wellFounded K V α).cutExpand
  refine Subrelation.wf ?_ (InvImage.wf (fun pool : Pool K V α => (pool.entries : Multiset _)) hwf)
  intro pool' pool hstep
  cases hstep with
  | @entry before after σ σ' e e' hentry =>
      have hnearer : Nearer e' e := by
        cases hentry with
        | start p _ _ => exact .start p
        | read k next => exact .read k next _
        | write k v next => exact .write k v next
        | finish a => exact .finish a
      have hsplit : ∀ e : PoolEntry K V α, ((before ++ e :: after : List _) : Multiset _) =
          {e} + ((before ++ after : List _) : Multiset _) := by
        intro e
        rw [Multiset.singleton_add, Multiset.cons_coe, Multiset.coe_eq_coe]
        exact List.perm_middle
      simp only [InvImage, hsplit]
      exact Relation.cutExpand_single_add hnearer _

/-- Every pool can be run to its end. -/
theorem exists_run (hworkers : 0 < workers) (pool : Pool K V α) :
    ∃ (as : List α) (σ : Store K V),
      Relation.ReflTransGen (Step workers) pool ⟨as.map .finished, σ⟩ := by
  have hwf : WellFounded (fun pool' pool : Pool K V α => Step workers pool pool') := step_wellFounded
  induction pool using hwf.induction with
  | h pool ih =>
      by_cases hend : pool.Finished
      · obtain ⟨as, has⟩ := hend
        exact ⟨as, pool.store, by rw [← has]⟩
      · obtain ⟨pool', hstep⟩ := exists_step hworkers pool hend
        obtain ⟨as, σ, hrun⟩ := ih pool' hstep
        exact ⟨as, σ, .head hstep hrun⟩

/-- However far jobs that are apart have come, they have a way to the end that they come to one
after the other. -/
theorem reaches_runEach (hworkers : 0 < workers) (hapart : jobs.Pairwise Job.Apart)
    {pool : Pool K V α}
    (h : Relation.ReflTransGen (Step workers) (start (jobs.map Job.process) σ₀) pool) :
    Relation.ReflTransGen (Step workers) pool
      ⟨(Process.runEach (jobs.map Job.process) σ₀).1.map .finished,
        (Process.runEach (jobs.map Job.process) σ₀).2⟩ := by
  obtain ⟨as, σ, hrest⟩ := exists_run hworkers pool
  have hrun : Runs workers (jobs.map Job.process) σ₀ as σ := h.trans hrest
  rw [hrun.eq_runEach hapart]
  exact hrest

/-- There is no run without an end. -/
theorem not_endless (f : ℕ → Pool K V α) : ¬ ∀ i, Step workers (f i) (f (i + 1)) := by
  intro h
  exact (wellFounded_iff_isEmpty_descending_chain.mp step_wellFounded).false ⟨f, h⟩

end Progress

end Pool
