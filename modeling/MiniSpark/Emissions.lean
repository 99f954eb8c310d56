import MiniSpark.ExceptList

/-!
# Emissions that may break off

What a generator yields until it ends or raises. A consumer processes the items one by one, so it
has done its work on the first items when the error comes. A whole iteration is the list of all
items, or the error.
-/

/-- Items, and the error raised after them. -/
structure Emission (ε α : Type) where
  items : List α
  stop : Option ε

namespace Emission

variable {ε α β σ : Type}

/-- An iteration that may fail as a whole; `before` is what it emits before the error. -/
def ofOutcome (before : List α) : Except ε (List α) → Emission ε α
  | .ok items => ⟨items, none⟩
  | .error e => ⟨before, some e⟩

/-- A result, unless the emission broke off. -/
def ending (m : Emission ε α) (b : β) : Except ε β :=
  match m.stop with
  | none => .ok b
  | some e => .error e

/-- The whole iteration. -/
def toExcept (m : Emission ε α) : Except ε (List α) := m.ending m.items

/-- A loop over the items. -/
def drain (step : σ → α → Except ε σ) (s : σ) (m : Emission ε α) : Except ε σ := do
  let t ← m.items.foldlM step s
  m.ending t

def bindItems (f : α → Emission ε β) (stop : Option ε) : List α → Emission ε β
  | [] => ⟨[], stop⟩
  | a :: as =>
      match (f a).stop with
      | some e => ⟨(f a).items, some e⟩
      | none => ⟨(f a).items ++ (bindItems f stop as).items, (bindItems f stop as).stop⟩

/-- A generator that yields from another one for each item. -/
def bind (m : Emission ε α) (f : α → Emission ε β) : Emission ε β := bindItems f m.stop m.items

lemma ending_eq_ok {m : Emission ε α} {b c : β} : m.ending b = .ok c ↔ m.stop = none ∧ b = c := by
  unfold ending
  cases m.stop <;> simp

lemma toExcept_eq_ok {m : Emission ε α} {xs : List α} :
    m.toExcept = .ok xs ↔ m.stop = none ∧ m.items = xs := ending_eq_ok

@[simp] lemma toExcept_ofOutcome (before : List α) (x : Except ε (List α)) :
    (ofOutcome before x).toExcept = x := by
  cases x <;> rfl

/-- A loop ends when the emission does and every step succeeds. -/
theorem drain_eq_ok {m : Emission ε α} {step : σ → α → Except ε σ} {s t : σ} :
    m.drain step s = .ok t ↔ ∃ xs, m.toExcept = .ok xs ∧ xs.foldlM step s = .ok t := by
  unfold drain
  rw [ExceptList.bind_eq_ok]
  constructor
  · rintro ⟨t', hfold, hend⟩
    obtain ⟨hstop, rfl⟩ := ending_eq_ok.mp hend
    exact ⟨m.items, toExcept_eq_ok.mpr ⟨hstop, rfl⟩, hfold⟩
  · rintro ⟨xs, hxs, hfold⟩
    obtain ⟨hstop, rfl⟩ := toExcept_eq_ok.mp hxs
    exact ⟨t, hfold, ending_eq_ok.mpr ⟨hstop, rfl⟩⟩

/-- A generator over another one ends when that one does and each of its parts does. -/
theorem bind_eq_ok {m : Emission ε α} {f : α → Emission ε β} {out : List β} :
    (m.bind f).toExcept = .ok out ↔ ∃ xs parts, m.toExcept = .ok xs ∧
      xs.mapM (fun a => (f a).toExcept) = .ok parts ∧ parts.flatten = out := by
  simp only [toExcept_eq_ok, bind]
  generalize m.stop = stop
  have hitems : ∀ items : List α, (bindItems f stop items).stop = none ∧
      (bindItems f stop items).items = out ↔
        ∃ parts, stop = none ∧ items.mapM (fun a => (f a).toExcept) = .ok parts ∧
          parts.flatten = out := by
    intro items
    induction items generalizing out with
    | nil =>
        rw [List.mapM_nil]
        constructor
        · rintro ⟨hstop, rfl⟩
          exact ⟨[], hstop, rfl, rfl⟩
        · rintro ⟨parts, hstop, hparts, hout⟩
          cases hparts
          exact ⟨hstop, hout⟩
    | cons a as ih =>
        rw [bindItems, List.mapM_cons]
        cases hfirst : (f a).stop with
        | some e =>
            refine iff_of_false (fun h => ?_) ?_
            · cases h.1
            · rintro ⟨parts, -, hparts, -⟩
              obtain ⟨first, hf, -⟩ := ExceptList.bind_eq_ok.mp hparts
              rw [(toExcept_eq_ok.mp hf).1] at hfirst
              cases hfirst
        | none =>
            constructor
            · rintro ⟨hstop, rfl⟩
              obtain ⟨parts, hnone, hparts, hflat⟩ := ih.mp ⟨hstop, rfl⟩
              refine ⟨(f a).items :: parts, hnone, ?_, by rw [List.flatten_cons, hflat]⟩
              rw [toExcept_eq_ok.mpr ⟨hfirst, rfl⟩, ExceptList.bind_ok, hparts]
              rfl
            · rintro ⟨parts, hnone, hparts, rfl⟩
              obtain ⟨first, hf, hparts⟩ := ExceptList.bind_eq_ok.mp hparts
              obtain ⟨rest, hrest, hparts⟩ := ExceptList.bind_eq_ok.mp hparts
              cases hparts
              obtain ⟨hstop, hitems⟩ := ih.mpr ⟨rest, hnone, hrest, rfl⟩
              refine ⟨hstop, ?_⟩
              rw [hitems, (toExcept_eq_ok.mp hf).2]
              rfl
  rw [hitems m.items]
  constructor
  · rintro ⟨parts, hstop, hparts⟩
    exact ⟨m.items, parts, ⟨hstop, rfl⟩, hparts⟩
  · rintro ⟨xs, parts, ⟨hstop, rfl⟩, hparts⟩
    exact ⟨parts, hstop, hparts⟩

/-- Parts that do not break off one by one. -/
lemma bind_outcomes_eq_ok {m : Emission ε α} {g : α → Except ε (List β)} {out : List β} :
    (m.bind (fun a => ofOutcome [] (g a))).toExcept = .ok out ↔
      ∃ xs, m.toExcept = .ok xs ∧ ∃ parts, xs.mapM g = .ok parts ∧ parts.flatten = out := by
  rw [bind_eq_ok]
  simp only [toExcept_ofOutcome, exists_and_left]

lemma mapM_singletons_eq_ok {g : α → Except ε β} {as : List α} {out : List β} :
    (∃ parts, as.mapM (fun a => (fun b => [b]) <$> g a) = .ok parts ∧ parts.flatten = out) ↔
      as.mapM g = .ok out := by
  simp only [ExceptList.mapM_eq_ok, ExceptList.map_eq_ok]
  constructor
  · rintro ⟨parts, hparts, rfl⟩
    induction hparts with
    | nil => exact .nil
    | cons hfirst _ ih =>
        obtain ⟨b, hb, rfl⟩ := hfirst
        exact .cons hb ih
  · intro hall
    refine ⟨out.map (fun b => [b]), ?_, ?_⟩
    · rw [List.forall₂_map_right_iff]
      exact hall.imp (fun a b hb => ⟨b, hb, rfl⟩)
    · rw [← List.flatMap_def, List.flatMap_singleton']

/-- One item for each, as a whole traversal has it. -/
lemma bind_singletons_eq_ok {m : Emission ε α} {g : α → Except ε β} {out : List β} :
    (m.bind (fun a => ofOutcome [] ((fun b => [b]) <$> g a))).toExcept = .ok out ↔
      ∃ xs, m.toExcept = .ok xs ∧ xs.mapM g = .ok out := by
  rw [bind_outcomes_eq_ok]
  exact exists_congr (fun xs => and_congr_right (fun _ => mapM_singletons_eq_ok))

lemma toExcept_list (xs : List α) : (⟨xs, none⟩ : Emission ε α).toExcept = .ok xs := rfl

end Emission
