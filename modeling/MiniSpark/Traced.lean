import Mathlib.Algebra.BigOperators.Ring.List
import Mathlib.Algebra.Order.Ring.Nat
import MiniSpark.ExceptList

/-!
# Computations that leave a trace

A computation that may raise, with the events it emitted on the way; an error keeps
the events emitted before it. Each event has a price. A computation is affordable on
a credit when its events cost no more than the credit, whether it returns or raises,
and what is left of the credit can be passed on to what comes next.
-/

/-- The events of a computation and how it ends. -/
structure Traced (ε τ α : Type) where
  trace : List τ
  result : Except ε α

namespace Traced

variable {ε τ α β : Type}

/-- Emit one event. -/
def emit (event : τ) : Traced ε τ Unit := ⟨[event], .ok ()⟩

/-- A computation without events. -/
def lift (x : Except ε α) : Traced ε τ α := ⟨[], x⟩

/-- Emit an event under a condition. -/
def emitIf (p : Prop) [Decidable p] (event : τ) : Traced ε τ Unit := ⟨if p then [event] else [], .ok ()⟩

/-- Emit events at the end, whether the computation returns or raises. -/
def ensuring (m : Traced ε τ α) (events : List τ) : Traced ε τ α := ⟨m.trace ++ events, m.result⟩

/-- After an error nothing more is emitted. -/
def andThen (m : Traced ε τ α) (k : α → Traced ε τ β) : Traced ε τ β :=
  match m.result with
  | .ok a => ⟨m.trace ++ (k a).trace, (k a).result⟩
  | .error e => ⟨m.trace, .error e⟩

instance : Monad (Traced ε τ) where
  pure a := ⟨[], .ok a⟩
  bind := andThen

@[simp] theorem result_pure (a : α) : (pure a : Traced ε τ α).result = .ok a := rfl

@[simp] theorem result_lift (x : Except ε α) : (lift x : Traced ε τ α).result = x := rfl

@[simp] theorem result_emit (event : τ) : (emit event : Traced ε τ Unit).result = .ok () := rfl

@[simp] theorem trace_pure (a : α) : (pure a : Traced ε τ α).trace = [] := rfl

@[simp] theorem trace_emit (event : τ) : (emit event : Traced ε τ Unit).trace = [event] := rfl

@[simp] theorem result_emitIf (p : Prop) [Decidable p] (event : τ) :
    (emitIf p event : Traced ε τ Unit).result = .ok () := rfl

@[simp] theorem result_ensuring (m : Traced ε τ α) (events : List τ) :
    (m.ensuring events).result = m.result := rfl

/-- Forgetting the events of a sequence forgets those of its parts. -/
@[simp] theorem result_bind (m : Traced ε τ α) (k : α → Traced ε τ β) :
    (m >>= k).result = m.result >>= fun a => (k a).result := by
  show (andThen m k).result = _
  unfold andThen
  cases m.result with
  | ok a => rfl
  | error e => rfl

theorem bind_of_ok {m : Traced ε τ α} {a : α} (h : m.result = .ok a) (k : α → Traced ε τ β) :
    (m >>= k).trace = m.trace ++ (k a).trace := by
  show (andThen m k).trace = _
  unfold andThen
  rw [h]

theorem bind_of_error {m : Traced ε τ α} {e : ε} (h : m.result = .error e)
    (k : α → Traced ε τ β) : (m >>= k).trace = m.trace := by
  show (andThen m k).trace = _
  unfold andThen
  rw [h]

/-- A sequel without events adds none. -/
theorem trace_bind_nil {m : Traced ε τ α} {k : α → Traced ε τ β} (hk : ∀ a, (k a).trace = []) :
    (m >>= k).trace = m.trace := by
  cases hm : m.result with
  | error e => exact bind_of_error hm k
  | ok a => rw [bind_of_ok hm, hk, List.append_nil]

theorem result_foldlM (f : β → α → Traced ε τ β) (as : List α) (b : β) :
    (as.foldlM f b).result = as.foldlM (fun b a => (f b a).result) b := by
  induction as generalizing b with
  | nil => rfl
  | cons a as ih =>
      rw [List.foldlM_cons, List.foldlM_cons, result_bind]
      congr 1
      funext b'
      exact ih b'

/-- The price of a list of events. -/
def cost (price : τ → ℕ) (events : List τ) : ℕ := (events.map price).sum

@[simp] theorem cost_nil (price : τ → ℕ) : cost price [] = 0 := rfl

@[simp] theorem cost_append (price : τ → ℕ) (es es' : List τ) :
    cost price (es ++ es') = cost price es + cost price es' := by
  simp [cost]

/-- A price of one for the events of a kind counts them. -/
theorem cost_eq_countP {price : τ → ℕ} {p : τ → Bool}
    (h : ∀ e, price e = if p e then 1 else 0) (events : List τ) :
    cost price events = events.countP p := by
  induction events with
  | nil => rfl
  | cons e events ih =>
      have hcons : cost price (e :: events) = price e + cost price events := by
        simp [cost]
      rw [hcons, ih, h e]
      by_cases he : p e
      · rw [List.countP_cons_of_pos he, if_pos he]
        omega
      · rw [List.countP_cons_of_neg he, if_neg he]
        omega

/-- The events cost no more than the credit, a result leaves `Q` with what is left of the
credit, and an error is one that is allowed. -/
structure Affords (price : τ → ℕ) (allowed : ε → Prop) (m : Traced ε τ α) (credit : ℕ)
    (Q : α → ℕ → Prop) : Prop where
  paid : cost price m.trace ≤ credit
  returns : ∀ a, m.result = .ok a → Q a (credit - cost price m.trace)
  raises : ∀ e, m.result = .error e → allowed e

section Rules

variable {price : τ → ℕ} {allowed : ε → Prop} {m : Traced ε τ α} {credit : ℕ}
variable {Q Q' : α → ℕ → Prop} {P : β → ℕ → Prop}

theorem Affords.imp (h : Affords price allowed m credit Q) (hQ : ∀ a left, Q a left → Q' a left) :
    Affords price allowed m credit Q' :=
  ⟨h.paid, fun a ha => hQ _ _ (h.returns a ha), h.raises⟩

theorem affords_pure {a : α} (h : Q a credit) : Affords price allowed (pure a) credit Q where
  paid := Nat.zero_le _
  returns := by
    rintro a' h'
    cases h'
    exact h
  raises := by
    intro e h'
    cases h'

theorem affords_lift {x : Except ε α} (hok : ∀ a, x = .ok a → Q a credit)
    (herr : ∀ e, x = .error e → allowed e) : Affords price allowed (lift x) credit Q where
  paid := Nat.zero_le _
  returns := hok
  raises := herr

theorem affords_emit {event : τ} {Q : Unit → ℕ → Prop} (hpaid : price event ≤ credit)
    (h : Q () (credit - price event)) : Affords price allowed (emit event) credit Q where
  paid := by simpa [emit, cost] using hpaid
  returns := by
    intro _ _
    simpa [emit, cost] using h
  raises := by
    intro e h'
    cases h'

/-- Credit a computation does not need is left untouched. -/
theorem Affords.frame {extra : ℕ} (h : Affords price allowed m credit Q)
    (hQ : ∀ a left, Q a left → Q' a (left + extra)) :
    Affords price allowed m (credit + extra) Q' where
  paid := Nat.le_add_right_of_le h.paid
  returns := by
    intro a ha
    have hleft : credit + extra - cost price m.trace = credit - cost price m.trace + extra := by
      have hpaid := h.paid
      omega
    rw [hleft]
    exact hQ _ _ (h.returns a ha)
  raises := h.raises

/-- What a first computation leaves of the credit pays for the next one. -/
theorem Affords.bind {k : α → Traced ε τ β}
    (h : Affords price allowed m credit (fun a left => Affords price allowed (k a) left P)) :
    Affords price allowed (m >>= k) credit P := by
  cases hm : m.result with
  | error e =>
      have htrace := bind_of_error hm k
      refine ⟨htrace ▸ h.paid, ?_, ?_⟩
      · intro b hb
        rw [result_bind, hm] at hb
        cases hb
      · intro e' he'
        rw [result_bind, hm] at he'
        cases he'
        exact h.raises e hm
  | ok a =>
      have hk := h.returns a hm
      have hpaid := h.paid
      have hnext := hk.paid
      have hcost : cost price (m >>= k).trace = cost price m.trace + cost price (k a).trace := by
        rw [bind_of_ok hm, cost_append]
      have hresult : (m >>= k).result = (k a).result := by
        rw [result_bind, hm]
        rfl
      refine ⟨by omega, ?_, ?_⟩
      · intro b hb
        have hb' := hk.returns b (hresult ▸ hb)
        rwa [hcost, Nat.sub_add_eq]
      · intro e he
        exact hk.raises e (hresult ▸ he)

/-- A fold is affordable when an invariant over the elements still to come pays for each step. -/
theorem affords_foldlM {f : β → α → Traced ε τ β} {I : List α → β → ℕ → Prop}
    (hstep : ∀ a rest b credit, I (a :: rest) b credit →
      Affords price allowed (f b a) credit (I rest))
    {as : List α} {b : β} {credit : ℕ} (h : I as b credit) :
    Affords price allowed (as.foldlM f b) credit (I []) := by
  induction as generalizing b credit with
  | nil => exact affords_pure h
  | cons a as ih =>
      rw [List.foldlM_cons]
      exact ((hstep a as b credit h).imp (fun b' left hb' => ih hb')).bind

end Rules

end Traced
