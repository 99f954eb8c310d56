import MiniSpark.Exchange
import MiniSpark.Planner
import MiniSpark.SplitRefinement

/-!
# A conjunction against a chain of filters

`And` has both its operands evaluated before it looks at either. A chain of two filters
evaluates the second condition only on the rows that pass the first, so a null check can
guard a comparison there. Where the chain runs to completion, the conjunction does so too,
with the same rows, exactly when the second condition also has a value on the dropped rows.
-/
namespace MiniSpark

variable {F : Type} [PyRuntime F]

/-- The condition `And(p, q)`. -/
lemma holds_conjunction (p q : Expression F) (r : Record F) :
    holds (.binary .and p q) r = holds p r >>= fun x => holds q r >>= fun y => pure (x && y) := by
  unfold holds
  cases hp : p.evaluate r with
  | error e => simp [Expression.evaluate, hp, Functor.map, Except.map]
  | ok v =>
      cases hq : q.evaluate r with
      | error e => simp [Expression.evaluate, hp, hq, Functor.map, Except.map]
      | ok w =>
          simp only [Expression.evaluate, hp, hq, ExceptList.bind_ok, ExceptList.map_ok,
            ExceptList.pure_eq_ok]
          rfl

/-- The second condition has a value on every row that the first one drops. -/
def EvaluatesWhereDropped (p q : Expression F) (rows : List (Record F)) : Prop :=
  ∀ r ∈ rows, holds p r = .ok false → ∃ v, q.evaluate r = .ok v

lemma evaluatesWhereDropped_flatten {p q : Expression F} {parts : List (List (Record F))} :
    EvaluatesWhereDropped p q parts.flatten ↔
      ∀ rows ∈ parts, EvaluatesWhereDropped p q rows := by
  constructor
  · exact fun h rows hrows r hr => h r (List.mem_flatten_of_mem hrows hr)
  · intro h r hr
    obtain ⟨rows, hrows, hr⟩ := List.mem_flatten.mp hr
    exact h rows hrows r hr

/-- On one partition whose rows pass through both filters. -/
theorem filterRows_and_iff {p q : Expression F} {rows kept out : List (Record F)}
    (hp : filterRows p rows = .ok kept) (hq : filterRows q kept = .ok out) :
    filterRows (.binary .and p q) rows = .ok out ↔ EvaluatesWhereDropped p q rows := by
  rw [filterRows, ExceptList.filterE_chain_iff (holds_conjunction p q) hp hq, EvaluatesWhereDropped]
  have hholds : ∀ r, (∃ b, holds q r = .ok b) ↔ ∃ v, q.evaluate r = .ok v := by
    intro r
    simp only [holds, ExceptList.map_eq_ok]
    exact ⟨fun ⟨_, v, hv, _⟩ => ⟨v, hv⟩, fun ⟨v, hv⟩ => ⟨_, v, hv, rfl⟩⟩
  simp only [hholds]

section Plans

variable [PyHost F]

/-- The rows of a filtered plan, partition by partition. -/
lemma denotedRows_filter {child : PhysicalPlan F} {condition : Expression F} {outs : List (List (Record F))} :
    denotedRows (.filterExec child condition) = .ok outs ↔
      ∃ parts, denotedRows child = .ok parts ∧ parts.mapM (filterRows condition) = .ok outs := by
  cases hd : denote child with
  | error e => simp [denotedRows, denote, hd]
  | ok d =>
      have hleft : denotedRows (.filterExec child condition) = (List.range d.numPartitions).mapM
          (fun pid => (d.part pid >>= Partition.toList) >>= filterRows condition) := by
        simp only [denotedRows, denote, hd, ExceptList.bind_ok, ExceptList.pure_eq_ok]
        refine ExceptList.mapM_congr (fun pid _ => ?_)
        cases d.part pid with
        | error e => rfl
        | ok part => rfl
      have hright : denotedRows child =
          (List.range d.numPartitions).mapM (fun pid => d.part pid >>= Partition.toList) := by
        simp only [denotedRows, hd, ExceptList.bind_ok]
      rw [hleft, hright]
      exact ExceptList.mapM_bind_eq_ok

/-- Whenever the chain of two filters runs to completion, the conjunction runs to the same
dataset exactly when its second condition has a value wherever the first one drops the row. -/
theorem conjunction_runs_iff {child : LogicalPlan F} {p q : Expression F} {n : ℕ} {spill : ℤ}
    {c chain both : PhysicalPlan F} {stages : List (Stage F)} {dataset : Dataset F}
    (maxRetries : ℕ) (root : String) (disk : Disk F) (hc : translate n spill child = .ok c)
    (hchain : translate n spill (.filter (.filter child p) q) = .ok chain)
    (hboth : translate n spill (.filter child (.binary .and p q)) = .ok both)
    (hstages : buildStages chain = .ok stages)
    (hrun : runPlan maxRetries executeTask root stages disk = .ok dataset) :
    (∃ stages', buildStages both = .ok stages' ∧
      runPlan maxRetries executeTask root stages' disk = .ok dataset) ↔
    ∀ parts, denotedRows c = .ok parts → EvaluatesWhereDropped p q parts.flatten := by
  obtain ⟨_, hstages₁, hmeans⟩ :=
    runPlan_of_unsplit (translate_unsplit hchain) maxRetries root disk
  obtain rfl := Except.ok.inj (hstages₁.symm.trans hstages)
  obtain ⟨stages', hstages', hmeans'⟩ :=
    runPlan_of_unsplit (translate_unsplit hboth) maxRetries root disk
  obtain ⟨outs, houts, rfl⟩ := (hmeans dataset).mp hrun
  obtain rfl : chain = .filterExec (.filterExec c p) q := by
    simpa [translate, hc] using hchain.symm
  obtain rfl : both = .filterExec c (.binary .and p q) := by
    simpa [translate, hc] using hboth.symm
  obtain ⟨kepts, hkepts, hq⟩ := denotedRows_filter.mp houts
  obtain ⟨parts, hparts, hp⟩ := denotedRows_filter.mp hkepts
  have hpartwise : parts.mapM (filterRows (.binary .and p q)) = .ok outs ↔
      EvaluatesWhereDropped p q parts.flatten := by
    rw [ExceptList.mapM_eq_ok] at hp hq ⊢
    rw [evaluatesWhereDropped_flatten]
    clear hparts hkepts houts hmeans hrun
    induction hp generalizing outs with
    | nil =>
        cases hq
        simp
    | @cons rows kept parts kepts hrows _ ih =>
        cases hq with
        | @cons _ out _ outs hkept hq =>
            rw [List.forall₂_cons, filterRows_and_iff hrows hkept, ih outs hq,
              List.forall_mem_cons]
  have hrows : (∀ parts', denotedRows c = .ok parts' → EvaluatesWhereDropped p q parts'.flatten) ↔
      parts.mapM (filterRows (.binary .and p q)) = .ok outs := by
    simp only [hpartwise, hparts, Except.ok.injEq, forall_eq']
  rw [hrows]
  constructor
  · rintro ⟨stages'', hstages'', hrun''⟩
    obtain rfl := Except.ok.inj (hstages'.symm.trans hstages'')
    obtain ⟨outs', houts', hsame⟩ := (hmeans' _).mp hrun''
    obtain rfl : outs = outs' := rowsDataset_injective hsame
    obtain ⟨parts', hparts', hfilter⟩ := denotedRows_filter.mp houts'
    rw [hparts] at hparts'
    obtain rfl := Except.ok.inj hparts'
    exact hfilter
  · intro hfilter
    exact ⟨stages', hstages', (hmeans' _).mpr
      ⟨outs, denotedRows_filter.mpr ⟨parts, hparts, hfilter⟩, rfl⟩⟩

end Plans

section Examples

/-- A table of one column in one partition. -/
def aColumn (values : List (Value ℚ)) : LogicalPlan ℚ :=
  intTable ["a"] (List.nodup_singleton "a") [values.map (fun v => [v])]

/-- `Column("a").is_not_null()`. -/
def aPresent : Expression ℚ := .isNotNull (.column "a")

/-- `Column("a") > Literal(2)`. -/
def aAboveTwo : Expression ℚ := .binary .greaterThan (.column "a") (.literal (.int 2))

/-- The row `{"a": 5}`. -/
def fiveRow : Record ℚ := OrderedDict.ofList [("a", .int 5)]

/-- The chain over a column and the conjunction over it, as planned. -/
lemma aColumn_plans (values : List (Value ℚ)) (p q : Expression ℚ) : ∃ child schema,
    child = .scanExec (rowsDataset schema (intRows ["a"] [values.map (fun v => [v])])) "memory" ∧
    translate 2 neverSpill (aColumn values) = .ok child ∧
    translate 2 neverSpill (.filter (.filter (aColumn values) p) q) =
      .ok (.filterExec (.filterExec child p) q) ∧
    translate 2 neverSpill (.filter (aColumn values) (.binary .and p q)) =
      .ok (.filterExec child (.binary .and p q)) :=
  ⟨_, _, rfl, rfl, rfl, rfl⟩

/-- The null check has a value on the row that the comparison drops. -/
theorem conjunction_runs_iff_noNulls : ∃ chain both stages stages' dataset,
    translate 2 neverSpill (.filter (.filter (aColumn [.int 1, .int 5]) aAboveTwo) aPresent) =
      .ok chain ∧
    translate 2 neverSpill (.filter (aColumn [.int 1, .int 5]) (.binary .and aAboveTwo aPresent)) =
      .ok both ∧
    buildStages chain = .ok stages ∧
    runPlan 0 executeTask "root" stages (fun _ => none) = .ok dataset ∧
    dataset.iterRecords = .ok [fiveRow] ∧ buildStages both = .ok stages' ∧
    runPlan 0 executeTask "root" stages' (fun _ => none) = .ok dataset := by
  obtain ⟨child, schema, rfl, hchild, hchain, hboth⟩ :=
    aColumn_plans [.int 1, .int 5] aAboveTwo aPresent
  have hscan := denotedRows_scan schema (intRows ["a"] [[.int 1, .int 5].map (fun v => [v])]) "memory"
  have habove : (intRows ["a"] [[.int 1, .int 5].map (fun v => [v])]).mapM (filterRows aAboveTwo) =
      .ok [[fiveRow]] := by decide
  have hpresent : [[fiveRow]].mapM (filterRows aPresent) = .ok [[fiveRow]] := by decide
  have hrows := denotedRows_filter.mpr ⟨_, denotedRows_filter.mpr ⟨_, hscan, habove⟩, hpresent⟩
  obtain ⟨stages, hstages, hmeans⟩ :=
    runPlan_of_unsplit (translate_unsplit hchain) 0 "root" (fun _ => none)
  have hrun := (hmeans _).mpr ⟨_, hrows, rfl⟩
  obtain ⟨stages', hstages', hrun'⟩ := (conjunction_runs_iff 0 "root" (fun _ => none) hchild hchain
    hboth hstages hrun).mpr (by
      intro parts hparts
      rw [hscan] at hparts
      cases hparts
      intro r hr hdrop
      simp only [intRows, List.map_cons, List.map_nil, List.flatten_cons, List.flatten_nil,
        List.append_nil, List.mem_cons, List.not_mem_nil, or_false] at hr
      rcases hr with rfl | rfl <;> exact ⟨_, rfl⟩)
  exact ⟨_, _, stages, stages', _, hchain, hboth, hstages, hrun, rowsDataset_iterRecords _ _,
    hstages', hrun'⟩

/-- A null check does not guard a comparison it is conjoined with. -/
theorem conjunction_fails : ∃ chain both stages stages' dataset,
    translate 2 neverSpill (.filter (.filter (aColumn [.none, .int 5]) aPresent) aAboveTwo) =
      .ok chain ∧
    translate 2 neverSpill (.filter (aColumn [.none, .int 5]) (.binary .and aPresent aAboveTwo)) =
      .ok both ∧
    buildStages chain = .ok stages ∧
    runPlan 0 executeTask "root" stages (fun _ => none) = .ok dataset ∧
    dataset.iterRecords = .ok [fiveRow] ∧ buildStages both = .ok stages' ∧
    ∀ dataset', runPlan 0 executeTask "root" stages' (fun _ => none) ≠ .ok dataset' := by
  obtain ⟨child, schema, rfl, -, hchain, hboth⟩ := aColumn_plans [.none, .int 5] aPresent aAboveTwo
  have hscan := denotedRows_scan schema (intRows ["a"] [[.none, .int 5].map (fun v => [v])]) "memory"
  have hpresent : (intRows ["a"] [[.none, .int 5].map (fun v => [v])]).mapM (filterRows aPresent) =
      .ok [[fiveRow]] := by decide
  have habove : [[fiveRow]].mapM (filterRows aAboveTwo) = .ok [[fiveRow]] := by decide
  have hrows := denotedRows_filter.mpr ⟨_, denotedRows_filter.mpr ⟨_, hscan, hpresent⟩, habove⟩
  obtain ⟨stages, hstages, hmeans⟩ :=
    runPlan_of_unsplit (translate_unsplit hchain) 0 "root" (fun _ => none)
  obtain ⟨stages', hstages', hmeans'⟩ :=
    runPlan_of_unsplit (translate_unsplit hboth) 0 "root" (fun _ => none)
  refine ⟨_, _, stages, stages', _, hchain, hboth, hstages, (hmeans _).mpr ⟨_, hrows, rfl⟩,
    rowsDataset_iterRecords _ _, hstages', fun dataset' hrun' => ?_⟩
  obtain ⟨outs, houts, -⟩ := (hmeans' dataset').mp hrun'
  obtain ⟨parts, hparts, hfilter⟩ := denotedRows_filter.mp houts
  rw [hscan] at hparts
  cases hparts
  have hraises : (intRows ["a"] [[.none, .int 5].map (fun v => [v])]).mapM
      (filterRows (.binary .and aPresent aAboveTwo)) = .error .typeError := by decide
  rw [hraises] at hfilter
  cases hfilter

end Examples

end MiniSpark
