import MiniSpark.ExceptList

/-!
# What a computation may return and what it may raise

`Meets E Q x`: a value `x` returns satisfies `Q`, and an error it raises satisfies `E`.
There is one rule for each way of building a computation.
-/
namespace Outcome

variable {ε α β : Type} {E E' : ε → Prop} {Q Q' : α → Prop} {R : β → Prop}

def Meets (E : ε → Prop) (Q : α → Prop) : Except ε α → Prop
  | .ok a => Q a
  | .error e => E e

@[simp] theorem meets_ok {a : α} : Meets E Q (Except.ok a) ↔ Q a := Iff.rfl

@[simp] theorem meets_error {e : ε} : Meets E Q (Except.error e : Except ε α) ↔ E e := Iff.rfl

theorem Meets.of_ok {x : Except ε α} (h : Meets E Q x) {a : α} (ha : x = .ok a) : Q a := by
  rw [ha] at h
  exact h

theorem Meets.of_error {x : Except ε α} (h : Meets E Q x) {e : ε} (he : x = .error e) : E e := by
  rw [he] at h
  exact h

theorem Meets.imp {x : Except ε α} (h : Meets E Q x) (hE : ∀ e, E e → E' e)
    (hQ : ∀ a, Q a → Q' a) : Meets E' Q' x := by
  cases x with
  | error e => exact hE e h
  | ok a => exact hQ a h

/-- Forget what is known about the value. -/
theorem Meets.any {x : Except ε α} (h : Meets E Q x) : Meets E (fun _ => True) x :=
  h.imp (fun _ he => he) (fun _ _ => trivial)

/-- A fact about the values that the computation does return. -/
theorem Meets.and_of_ok {x : Except ε α} (h : Meets E Q x) (hQ : ∀ a, x = .ok a → Q' a) :
    Meets E (fun a => Q a ∧ Q' a) x := by
  cases x with
  | error e => exact h
  | ok a => exact ⟨h, hQ a rfl⟩

theorem Meets.bind {x : Except ε α} {f : α → Except ε β} (h : Meets E Q x)
    (hf : ∀ a, Q a → Meets E R (f a)) : Meets E R (x >>= f) := by
  cases x with
  | error e => exact h
  | ok a => exact hf a h

theorem Meets.map {x : Except ε α} {f : α → β} (h : Meets E Q x) (hf : ∀ a, Q a → R (f a)) :
    Meets E R (f <$> x) := by
  cases x with
  | error e => exact h
  | ok a => exact hf a h

section Traversals

/-- Every element of a traversal meets its own condition. -/
theorem meets_mapM {S : α → β → Prop} {f : α → Except ε β} {as : List α}
    (h : ∀ a ∈ as, Meets E (S a) (f a)) : Meets E (List.Forall₂ S as) (as.mapM f) := by
  induction as with
  | nil => exact List.Forall₂.nil
  | cons a as ih =>
      obtain ⟨ha, has⟩ := List.forall_mem_cons.mp h
      rw [List.mapM_cons]
      refine ha.bind (fun b hb => ?_)
      exact (ih has).bind (fun bs hbs => List.Forall₂.cons hb hbs)

theorem meets_mapM_all {f : α → Except ε β} {as : List α} (h : ∀ a ∈ as, Meets E R (f a)) :
    Meets E (fun bs => ∀ b ∈ bs, R b) (as.mapM f) := by
  induction as with
  | nil => exact List.forall_mem_nil R
  | cons a as ih =>
      obtain ⟨ha, has⟩ := List.forall_mem_cons.mp h
      rw [List.mapM_cons]
      refine ha.bind (fun b hb => ?_)
      exact (ih has).bind (fun bs hbs => List.forall_mem_cons.mpr ⟨hb, hbs⟩)

/-- An invariant of the steps is an invariant of the loop. -/
theorem meets_foldlM {I : β → Prop} {f : β → α → Except ε β} {as : List α} {b : β} (hb : I b)
    (h : ∀ a ∈ as, ∀ b, I b → Meets E I (f b a)) : Meets E I (as.foldlM f b) := by
  induction as generalizing b with
  | nil => exact hb
  | cons a as ih =>
      obtain ⟨ha, has⟩ := List.forall_mem_cons.mp h
      rw [List.foldlM_cons]
      exact (ha b hb).bind (fun b' hb' => ih hb' has)

/-- A filter keeps some of the elements. -/
theorem meets_filterE {p : α → Except ε Bool} {as : List α}
    (h : ∀ a ∈ as, Meets E (fun _ => True) (p a)) :
    Meets E (fun bs => bs ⊆ as) (ExceptList.filterE p as) := by
  induction as with
  | nil => exact List.Subset.refl []
  | cons a as ih =>
      obtain ⟨ha, has⟩ := List.forall_mem_cons.mp h
      refine ha.bind (fun t _ => (ih has).bind (fun rest hrest => ?_))
      cases t with
      | true => exact List.cons_subset_cons a hrest
      | false => exact List.Subset.trans hrest (List.subset_cons_self a as)

end Traversals

section Mirrors

variable {γ δ : Type} {p : α → γ} {q : β → δ}

/-- Both raise the same error, or both return, the one value the image of the other, which
satisfies `Q`. -/
def Mirrors (p : α → γ) (Q : α → Prop) : Except ε α → Except ε γ → Prop
  | .ok a, .ok c => p a = c ∧ Q a
  | .error e, .error e' => e = e'
  | _, _ => False

theorem Mirrors.map_eq {x : Except ε α} {y : Except ε γ} (h : Mirrors p Q x y) : x.map p = y := by
  cases x <;> cases y
  · exact congrArg Except.error h
  · exact h.elim
  · exact h.elim
  · exact congrArg Except.ok h.1

theorem Mirrors.same (x : Except ε α) (hQ : ∀ a, x = .ok a → Q a) : Mirrors id Q x x := by
  cases x with
  | error e => rfl
  | ok a => exact ⟨rfl, hQ a rfl⟩

theorem Mirrors.imp {x : Except ε α} {y : Except ε γ} (h : Mirrors p Q x y)
    (hQ : ∀ a, Q a → Q' a) : Mirrors p Q' x y := by
  cases x <;> cases y
  · exact h
  · exact h
  · exact h
  · exact ⟨h.1, hQ _ h.2⟩

theorem Mirrors.bind {x : Except ε α} {y : Except ε γ} {f : α → Except ε β} {g : γ → Except ε δ}
    (h : Mirrors p Q x y) (hfg : ∀ a, Q a → Mirrors q R (f a) (g (p a))) :
    Mirrors q R (x >>= f) (y >>= g) := by
  cases x <;> cases y
  · exact h
  · exact h.elim
  · exact h.elim
  · obtain ⟨rfl, ha⟩ := h
    exact hfg _ ha

/-- A loop whose state satisfies an invariant of what is left to do. -/
theorem Mirrors.foldlM {ι : Type} {I : List ι → α → Prop} {f : α → ι → Except ε α}
    {g : γ → ι → Except ε γ} (is : List ι)
    (h : ∀ i is a, I (i :: is) a → Mirrors p (I is) (f a i) (g (p a) i)) {a : α}
    (ha : I is a) : Mirrors p (I []) (is.foldlM f a) (is.foldlM g (p a)) := by
  induction is generalizing a with
  | nil => exact ⟨rfl, ha⟩
  | cons i is ih =>
      rw [List.foldlM_cons, List.foldlM_cons]
      exact (h i is a ha).bind (fun b hb => ih hb)

end Mirrors

end Outcome
