import MiniSpark.ExceptList
import MiniSpark.OrderedDict

/-!
# Folding rows into a dictionary

Each element is folded into the entry of its key. Looking up one key afterwards
is folding the elements of that key alone, in their order. The key comparison
need only be symmetric and transitive: a key that does not equal itself starts
an entry of its own each time and is never found again.
-/
namespace OrderedDict

section Fold

variable {ε α K V : Type} [BEq K]

/-- Fold one element into the entry of its key. -/
def foldStep (key : α → Except ε K) (f : Option V → α → Except ε V) (d : OrderedDict K V)
    (x : α) : Except ε (OrderedDict K V) := do
  let k ← key x
  let v ← f (d.get? k) x
  pure (d.set k v)

/-- Does the key of an element equal `k`? -/
def hasKey (key : α → Except ε K) (k : K) (x : α) : Bool := ExceptList.verdict (fun x => do
  let k' ← key x
  pure (k' == k)) x

lemma hasKey_of_ok {key : α → Except ε K} {k k' : K} {x : α} (h : key x = .ok k') :
    hasKey key k x = (k' == k) := by
  simp [hasKey, ExceptList.verdict, h]

lemma foldStep_eq_ok {key : α → Except ε K} {f : Option V → α → Except ε V}
    {d d' : OrderedDict K V} {x : α} :
    foldStep key f d x = .ok d' ↔
      ∃ k v, key x = .ok k ∧ f (d.get? k) x = .ok v ∧ d' = d.set k v := by
  simp only [foldStep, ExceptList.bind_eq_ok, ExceptList.pure_eq_ok, Except.ok.injEq]
  constructor
  · rintro ⟨k, hk, v, hv, h⟩
    exact ⟨k, v, hk, hv, h.symm⟩
  · rintro ⟨k, v, hk, hv, h⟩
    exact ⟨k, hk, v, hv, h.symm⟩

/-- Every key of a successful fold could be computed. -/
theorem foldStep_keys_ok {key : α → Except ε K} {f : Option V → α → Except ε V} {xs : List α}
    {d d' : OrderedDict K V} (h : xs.foldlM (foldStep key f) d = .ok d') :
    ∀ x ∈ xs, ∃ k, key x = .ok k := by
  induction xs generalizing d with
  | nil => simp
  | cons x xs ih =>
      rw [List.foldlM_cons] at h
      obtain ⟨d₁, hd₁, h⟩ := ExceptList.bind_eq_ok.mp h
      obtain ⟨k, v, hk, -, -⟩ := foldStep_eq_ok.mp hd₁
      exact List.forall_mem_cons.mpr ⟨⟨k, hk⟩, ih h⟩

/-- Looking up a key after a fold is folding the elements of that key. -/
theorem foldStep_get? [PartialEquivBEq K] {key : α → Except ε K}
    {f : Option V → α → Except ε V} {xs : List α} {d d' : OrderedDict K V}
    (h : xs.foldlM (foldStep key f) d = .ok d') (k : K) :
    (xs.filter (hasKey key k)).foldlM (fun s x => some <$> f s x) (d.get? k) =
      .ok (d'.get? k) := by
  induction xs generalizing d with
  | nil => cases h; rfl
  | cons x xs ih =>
      rw [List.foldlM_cons] at h
      obtain ⟨d₁, hd₁, h⟩ := ExceptList.bind_eq_ok.mp h
      obtain ⟨k', v, hk', hv, rfl⟩ := foldStep_eq_ok.mp hd₁
      have hrest := ih h
      rw [get?_set] at hrest
      rw [List.filter_cons, hasKey_of_ok hk']
      cases heq : k' == k with
      | true =>
          rw [heq, if_pos rfl] at hrest
          rw [if_pos rfl, List.foldlM_cons, ← get?_congr heq d, hv]
          exact hrest
      | false =>
          rw [heq, if_neg Bool.false_ne_true] at hrest
          rw [if_neg Bool.false_ne_true]
          exact hrest

/-- What holds of every key and is kept by every state update holds of all entries. -/
theorem foldStep_items {key : α → Except ε K} {f : Option V → α → Except ε V} {P : K → Prop}
    {Q : V → Prop} {xs : List α} {d d' : OrderedDict K V}
    (h : xs.foldlM (foldStep key f) d = .ok d')
    (hkey : ∀ x ∈ xs, ∀ k, key x = .ok k → P k)
    (hf : ∀ x ∈ xs, ∀ s v, (∀ w, s = some w → Q w) → f s x = .ok v → Q v)
    (hd : ∀ p ∈ d.items, P p.1 ∧ Q p.2) : ∀ p ∈ d'.items, P p.1 ∧ Q p.2 := by
  induction xs generalizing d with
  | nil => cases h; exact hd
  | cons x xs ih =>
      rw [List.foldlM_cons] at h
      obtain ⟨d₁, hd₁, h⟩ := ExceptList.bind_eq_ok.mp h
      obtain ⟨k, v, hk, hv, rfl⟩ := foldStep_eq_ok.mp hd₁
      refine ih h (fun y hy => hkey y (by simp [hy])) (fun y hy => hf y (by simp [hy])) ?_
      have hq : Q v := by
        refine hf x (by simp) _ v (fun w hw => ?_) hv
        obtain ⟨p, hp, rfl⟩ := Option.map_eq_some_iff.mp hw
        exact (hd p (List.mem_of_find?_eq_some hp)).2
      have hp : P k := hkey x (by simp) k hk
      exact setItems_forall hd hp hq

end Fold

section Grouping

variable {ε α K : Type} [BEq K] [PartialEquivBEq K]

/-- `setdefault(key, []).append(x)` as a state update. -/
def appendTo (s : Option (List α)) (x : α) : Except ε (List α) := .ok (s.getD [] ++ [x])

lemma foldlM_appendTo (ε : Type) (xs : List α) (s : Option (List α)) :
    ∃ t, xs.foldlM (fun s x => some <$> (appendTo s x : Except ε (List α))) s = .ok t ∧
      t.getD [] = s.getD [] ++ xs := by
  induction xs generalizing s with
  | nil => exact ⟨s, rfl, by simp⟩
  | cons x xs ih =>
      obtain ⟨t, ht, hval⟩ := ih (some (s.getD [] ++ [x]))
      exact ⟨t, ht, by simpa using hval⟩

/-- Grouping keeps under each key exactly the elements of that key, in order. -/
theorem grouping_get? {key : α → Except ε K} {xs : List α} {d : OrderedDict K (List α)}
    (h : xs.foldlM (foldStep key appendTo) empty = .ok d) (k : K) :
    (d.get? k).getD [] = xs.filter (hasKey key k) := by
  have hget := foldStep_get? h k
  obtain ⟨t, ht, hval⟩ := foldlM_appendTo ε (xs.filter (hasKey key k))
    ((empty : OrderedDict K (List α)).get? k)
  rw [ht, Except.ok.injEq] at hget
  rw [← hget, hval]
  simp

omit [PartialEquivBEq K] in
/-- Grouping needs nothing but the keys. -/
theorem grouping_ok {key : α → Except ε K} {xs : List α} (d : OrderedDict K (List α))
    (hkey : ∀ x ∈ xs, ∃ k, key x = .ok k) : ∃ d', xs.foldlM (foldStep key appendTo) d = .ok d' := by
  induction xs generalizing d with
  | nil => exact ⟨d, rfl⟩
  | cons x xs ih =>
      obtain ⟨k, hk⟩ := hkey x (by simp)
      obtain ⟨d', hd'⟩ := ih (d.set k ((d.get? k).getD [] ++ [x])) (fun y hy => hkey y (by simp [hy]))
      refine ⟨d', ?_⟩
      rw [List.foldlM_cons, foldStep_eq_ok.mpr ⟨k, _, hk, rfl, rfl⟩]
      exact hd'

end Grouping

end OrderedDict
