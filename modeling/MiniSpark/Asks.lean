import MiniSpark.ExceptList

/-!
# Computations that put questions

A computation that returns, fails, or puts a question and goes on with the answer. Its
answers are supplied from outside: some questions may have none, and then their error ends
the computation. Which questions it comes to is a function of the answers so far.
-/

/-- Returns, fails, or asks. -/
inductive Asks (Q A ε α : Type)
  | done (a : α)
  | fail (e : ε)
  | ask (q : Q) (k : A → Asks Q A ε α)

namespace Asks

variable {Q A ε α β : Type}

def bind : Asks Q A ε α → (α → Asks Q A ε β) → Asks Q A ε β
  | .done a, f => f a
  | .fail e, _ => .fail e
  | .ask q k, f => .ask q (fun answer => (k answer).bind f)

instance : Monad (Asks Q A ε) where
  pure := .done
  bind := bind

/-- The computation with its questions answered. -/
def run (answer : Q → Except ε A) : Asks Q A ε α → Except ε α
  | .done a => .ok a
  | .fail e => .error e
  | .ask q k =>
      match answer q with
      | .ok a => (k a).run answer
      | .error e => .error e

/-- The questions it comes to when every question has an answer. -/
def asked (answer : Q → A) : Asks Q A ε α → List Q
  | .done _ => []
  | .fail _ => []
  | .ask q k => q :: (k (answer q)).asked answer

@[simp] theorem run_pure (answer : Q → Except ε A) (a : α) :
    (pure a : Asks Q A ε α).run answer = .ok a := rfl

@[simp] theorem run_fail (answer : Q → Except ε A) (e : ε) :
    (fail e : Asks Q A ε α).run answer = .error e := rfl

@[simp] theorem run_bind (answer : Q → Except ε A) (m : Asks Q A ε α) (f : α → Asks Q A ε β) :
    (m >>= f).run answer = m.run answer >>= fun a => (f a).run answer := by
  show (bind m f).run answer = _
  induction m with
  | done a => rfl
  | fail e => rfl
  | ask q k ih =>
      simp only [bind, run]
      cases answer q with
      | error e => rfl
      | ok a => exact ih a

section Questions

variable {answer : Q → A} {m : Asks Q A ε α} {f : α → Asks Q A ε β}

/-- The questions of a computation that returns come before those of what follows it. -/
theorem asked_bind_of_ok {a : α} (h : m.run (fun q => .ok (answer q)) = .ok a) :
    (m >>= f).asked answer = m.asked answer ++ (f a).asked answer := by
  show (bind m f).asked answer = _
  induction m with
  | done b =>
      cases h
      rfl
  | fail e => cases h
  | ask q k ih => exact congrArg (q :: ·) (ih (answer q) h)

/-- What follows a computation that fails asks nothing. -/
theorem asked_bind_of_error {e : ε} (h : m.run (fun q => .ok (answer q)) = .error e) :
    (m >>= f).asked answer = m.asked answer := by
  show (bind m f).asked answer = _
  induction m with
  | done b => cases h
  | fail e => rfl
  | ask q k ih => exact congrArg (q :: ·) (ih (answer q) h)

end Questions

section Answers

variable {partialAnswer : Q → Except ε A} {answer : Q → A} {m : Asks Q A ε α}

/-- The first question without an answer ends the computation. -/
theorem run_error_of_asked (htotal : ∀ q a, partialAnswer q = .ok a → a = answer q) {q : Q} {e : ε}
    (hmem : q ∈ m.asked answer) (hq : partialAnswer q = .error e) :
    ∃ q' ∈ m.asked answer, ∃ e', partialAnswer q' = .error e' ∧
      m.run partialAnswer = .error e' := by
  induction m with
  | done a => cases hmem
  | fail e => cases hmem
  | ask q' k ih =>
      cases hfirst : partialAnswer q' with
      | error e' => exact ⟨q', List.mem_cons_self, e', hfirst, by simp only [run, hfirst]⟩
      | ok a =>
          obtain rfl := htotal q' a hfirst
          have hrest : q ∈ (k (answer q')).asked answer := by
            rcases List.mem_cons.mp hmem with rfl | hrest
            · rw [hq] at hfirst
              cases hfirst
            · exact hrest
          obtain ⟨q'', hmem', e', he', hrun⟩ := ih (answer q') hrest
          refine ⟨q'', List.mem_cons_of_mem _ hmem', e', he', ?_⟩
          simp only [run, hfirst]
          exact hrun

end Answers

end Asks
