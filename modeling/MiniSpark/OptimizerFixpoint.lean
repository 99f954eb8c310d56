import MiniSpark.Optimizer

/-!
# Where the optimizer stops

The loop stops after a pass that leaves the printed plan as it was, and after ten passes
in any case. Optimizing its result again returns that very plan, unless all ten passes
changed the printed plan, or the last one changed something that is not printed.
-/
namespace MiniSpark

variable {F : Type} [PyRuntime F]

section Passes

/-- So many passes of the rules. -/
def passes (rules : List Rule) : ℕ → LogicalPlan F → Py (LogicalPlan F)
  | 0, plan => pure plan
  | n + 1, plan => do
      let plan' ← applyRules rules plan
      passes rules n plan'

/-- Every one of the first `n` passes changes the printed plan. -/
def ChangesInPrint (rules : List Rule) (n : ℕ) (plan : LogicalPlan F) : Prop :=
  ∀ k < n, ∀ before after, passes rules k plan = .ok before → applyRules rules before = .ok after →
    after.explainString ≠ before.explainString

variable {rules : List Rule} {plan once : LogicalPlan F}

/-- The loop makes passes that change the printed plan, and one last pass. -/
theorem optimizeLoop_passes {n : ℕ} (hn : 0 < n) (h : optimizeLoop rules n plan = .ok once) :
    ∃ k last, k < n ∧ passes rules k plan = .ok last ∧ applyRules rules last = .ok once ∧
      ChangesInPrint rules k plan ∧
      (once.explainString = last.explainString ∨
        (k + 1 = n ∧ once.explainString ≠ last.explainString)) := by
  induction n generalizing plan with
  | zero => exact absurd hn (Nat.lt_irrefl 0)
  | succ n ih =>
      obtain ⟨mid, text, hmid, -, ⟨heq, rfl⟩ | ⟨heq, h⟩⟩ := optimizeLoop_succ h
      · exact ⟨0, plan, hn, rfl, hmid, fun k hk => absurd hk (Nat.not_lt_zero k), Or.inl heq⟩
      · by_cases hn' : 0 < n
        · obtain ⟨k, last, hk, hpasses, hlast, hchanges, hstop⟩ := ih hn' h
          refine ⟨k + 1, last, by omega, ?_, hlast, ?_, ?_⟩
          · exact ExceptList.bind_eq_ok.mpr ⟨mid, hmid, hpasses⟩
          · intro j hj before after hbefore hafter
            cases j with
            | zero =>
                cases hbefore
                rw [hmid, Except.ok.injEq] at hafter
                exact hafter ▸ heq
            | succ j =>
                obtain ⟨mid', hmid', hbefore⟩ := ExceptList.bind_eq_ok.mp hbefore
                rw [hmid, Except.ok.injEq] at hmid'
                subst hmid'
                exact hchanges j (by omega) before after hbefore hafter
          · exact hstop.imp_right (fun ⟨hkn, hne⟩ => ⟨by omega, hne⟩)
        · obtain rfl : n = 0 := by omega
          cases h
          exact ⟨0, plan, hn, rfl, hmid, fun k hk => absurd hk (Nat.not_lt_zero k),
            Or.inr ⟨rfl, heq⟩⟩

/-- A plan that a pass leaves as it is, is left as it is by the loop. -/
theorem optimizeLoop_fixed {n : ℕ} {text : String} (hprints : plan.explainString = .ok text)
    (h : applyRules rules plan = .ok plan) : optimizeLoop rules n plan = .ok plan := by
  cases n with
  | zero => rfl
  | succ n =>
      rw [optimizeLoop, hprints, ExceptList.bind_ok, h, ExceptList.bind_ok, hprints,
        ExceptList.bind_ok, if_pos rfl]
      rfl

/-- What a loop returns after its first round prints. -/
theorem optimizeLoop_prints {n : ℕ} (hn : 0 < n) (h : optimizeLoop rules n plan = .ok once) :
    ∃ text, once.explainString = .ok text := by
  induction n generalizing plan with
  | zero => exact absurd hn (Nat.lt_irrefl 0)
  | succ n ih =>
      obtain ⟨mid, text, -, htext, ⟨-, rfl⟩ | ⟨-, h⟩⟩ := optimizeLoop_succ h
      · exact ⟨text, htext⟩
      · by_cases hn' : 0 < n
        · exact ih hn' h
        · obtain rfl : n = 0 := by omega
          cases h
          exact ⟨text, htext⟩

/-- Optimizing twice is optimizing once, unless the first call was cut off by the bound on
its passes, or its last pass changed the plan but not its printed form. -/
theorem optimize_idempotent_unless (h : optimize rules plan = .ok once) :
    ChangesInPrint rules defaultMaxIterations plan ∨
    (∃ k last, k < defaultMaxIterations ∧ passes rules k plan = .ok last ∧
      applyRules rules last = .ok once ∧ once.explainString = last.explainString ∧
      once ≠ last) ∨
    optimize rules once = .ok once := by
  obtain ⟨k, last, hk, hpasses, hlast, hchanges, hstop⟩ :=
    optimizeLoop_passes (by decide) h
  by_cases hsame : once = last
  · subst hsame
    obtain ⟨text, htext⟩ := optimizeLoop_prints (by decide) h
    exact Or.inr (Or.inr (optimizeLoop_fixed htext hlast))
  · obtain hprint | ⟨hcap, hne⟩ := hstop
    · exact Or.inr (Or.inl ⟨k, last, hk, hpasses, hlast, hprint, hsame⟩)
    · refine Or.inl (fun j hj before after hbefore hafter => ?_)
      by_cases hjk : j < k
      · exact hchanges j hjk before after hbefore hafter
      · obtain rfl : j = k := by omega
        rw [hpasses, Except.ok.injEq] at hbefore
        subst hbefore
        rw [hlast, Except.ok.injEq] at hafter
        exact hafter ▸ hne

end Passes

section Examples

/-- `a > 10 + 10`, and what folding makes of it. -/
def aAboveSum (bound : Expression ℚ) : LogicalPlan ℚ :=
  .filter abTable (.binary .greaterThan (.column "a") bound)

theorem optimize_idempotent_unless_folded :
    ChangesInPrint (defaultRules {}) defaultMaxIterations
      (aAboveSum (.binary .add (.literal (.int 10)) (.literal (.int 10)))) ∨
    (∃ k last, k < defaultMaxIterations ∧ passes (defaultRules {}) k
        (aAboveSum (.binary .add (.literal (.int 10)) (.literal (.int 10)))) = .ok last ∧
      applyRules (defaultRules {}) last = .ok (aAboveSum (.literal (.int 20))) ∧
      (aAboveSum (.literal (.int 20))).explainString = last.explainString ∧
      aAboveSum (.literal (.int 20)) ≠ last) ∨
    optimize (defaultRules {}) (aAboveSum (.literal (.int 20))) =
      .ok (aAboveSum (.literal (.int 20))) := by
  have hoptimize : optimize (defaultRules {})
      (aAboveSum (.binary .add (.literal (.int 10)) (.literal (.int 10)))) =
        .ok (aAboveSum (.literal (.int 20))) := rfl
  exact optimize_idempotent_unless hoptimize

/-- So many projections that compute `b` anew. -/
def recomputedTable : ℕ → LogicalPlan ℚ
  | 0 => abTable
  | n + 1 => .project (recomputedTable n)
      [.column "a", .aliased (.binary .add (.column "b") (.literal (.int 1))) "b"]

/-- `a` above 20, eleven projections above the table. -/
def deepFilter : LogicalPlan ℚ :=
  .filter (recomputedTable 11) (.binary .greaterThan (.column "a") (.literal (.int 20)))

/-- Whether optimizing a plan twice prints what optimizing it once does. -/
def printsTheSameTwice (plan : LogicalPlan ℚ) : Py Bool := do
  let once ← optimize (defaultRules {}) plan
  let twice ← optimize (defaultRules {}) once
  pure (twice.explainString = once.explainString)

/-- The filter moves below ten of the projections, and below the last one only when the
plan is optimized again. -/
theorem optimize_not_idempotent :
    ¬ ∀ (plan analyzed once : LogicalPlan ℚ), analyze plan = .ok analyzed →
      optimize (defaultRules {}) plan = .ok once → printsTheSameTwice plan = .ok true := by
  intro h
  have hprints : printsTheSameTwice deepFilter = .ok false := by decide +kernel
  have hanalyzed : (analyze deepFilter).isOk = true := by decide +kernel
  cases ha : analyze deepFilter with
  | error e =>
      rw [ha] at hanalyzed
      cases hanalyzed
  | ok analyzed =>
      obtain ⟨once, honce, -⟩ := ExceptList.bind_eq_ok.mp hprints
      have := h deepFilter analyzed once ha honce
      rw [hprints] at this
      cases this

/-- `not (b > 1 and False) or b > 1`, under an alias that is all that is printed of it. -/
def hiddenOr : LogicalPlan ℚ :=
  .project (.filter abTable (.binary .greaterThan (.column "a") (.literal (.int 20))))
    [.column "a", .aliased (.binary .or
      (.not (.binary .and (.binary .greaterThan (.column "b") (.literal (.int 1)))
        (.literal (.bool false))))
      (.binary .greaterThan (.column "b") (.literal (.int 1)))) "x"]

/-- Whether one pass of the rules changes how a plan prints. -/
def passShows (plan : LogicalPlan ℚ) : Py Bool := do
  let after ← applyRules (defaultRules {}) plan
  pure (after.explainString ≠ plan.explainString)

/-- The first pass simplifies to `not False or b > 1`, which no printed plan shows, so the loop
ends there. Optimized again, the condition becomes `True` and `b` is pruned below the filter. -/
theorem optimize_stops_unseen :
    ¬ ∀ plan once : LogicalPlan ℚ, optimize (defaultRules {}) plan = .ok once →
      ChangesInPrint (defaultRules {}) defaultMaxIterations plan ∨
        optimize (defaultRules {}) once = .ok once := by
  intro h
  have hprints : printsTheSameTwice hiddenOr = .ok false := by decide +kernel
  have hshows : passShows hiddenOr = .ok false := by decide +kernel
  obtain ⟨once, honce, htwice⟩ := ExceptList.bind_eq_ok.mp hprints
  obtain ⟨after, hafter, hsame⟩ := ExceptList.bind_eq_ok.mp hshows
  obtain hchanges | hfixed := h hiddenOr once honce
  · have hne := hchanges 0 (by decide) hiddenOr after rfl hafter
    simp [pure, Except.pure, hne] at hsame
  · rw [hfixed] at htwice
    simp [pure, Except.pure] at htwice

end Examples

end MiniSpark
