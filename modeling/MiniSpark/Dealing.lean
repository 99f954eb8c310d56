import Mathlib.Data.List.Forall2
import Mathlib.Data.Multiset.Bind

/-!
# Dealing elements to targets

Dealing every element of a list to one target and reading the targets one after
the other permutes the list. Nested loops may be exchanged.
-/
namespace Dealing

variable {α β γ : Type}

/-- Dealing to the targets below `n` loses and duplicates nothing. -/
theorem deal_perm {target : α → ℕ} {n : ℕ} {xs : List α} (h : ∀ a ∈ xs, target a < n) :
    ((List.range n).flatMap (fun p => xs.filter (fun a => target a = p))).Perm xs := by
  induction n generalizing xs with
  | zero =>
      cases xs with
      | nil => simp
      | cons a xs => exact absurd (h a List.mem_cons_self) (Nat.not_lt_zero _)
  | succ n ih =>
      have hbelow : ∀ a ∈ xs.filter (fun a => target a < n), target a < n :=
        fun a ha => by simpa using (List.mem_filter.mp ha).2
      have hrest := ih hbelow
      have hinner : ∀ p ∈ List.range n, (xs.filter (fun a => target a < n)).filter
          (fun a => target a = p) = xs.filter (fun a => target a = p) := by
        intro p hp
        rw [List.filter_filter]
        refine List.filter_congr (fun a _ => ?_)
        have := List.mem_range.mp hp
        by_cases hap : target a = p <;> simp [hap, this]
      have hlast : xs.filter (fun a => target a = n) =
          xs.filter (fun a => !decide (target a < n)) := by
        refine List.filter_congr (fun a ha => ?_)
        have := h a ha
        by_cases han : target a = n
        · simp [han]
        · simp [han, show target a < n by omega]
      rw [List.flatMap_congr hinner] at hrest
      rw [List.range_succ, List.flatMap_append, List.flatMap_singleton, hlast]
      exact (hrest.append_right _).trans (List.filter_append_perm _ _)

/-- Two nested loops may be exchanged. -/
theorem flatMap_swap_perm (xs : List α) (ys : List β) (f : α → β → List γ) :
    (xs.flatMap (fun x => ys.flatMap (f x))).Perm (ys.flatMap (fun y => xs.flatMap (f · y))) := by
  rw [← Multiset.coe_eq_coe]
  simp only [← Multiset.coe_bind]
  exact Multiset.bind_bind (xs : Multiset α) (ys : Multiset β)

lemma map_filter_eq_flatMap (p : α → Bool) (f : α → β) (xs : List α) :
    (xs.filter p).map f = xs.flatMap (fun x => if p x then [f x] else []) := by
  induction xs with
  | nil => rfl
  | cons x xs ih =>
      rw [List.filter_cons, List.flatMap_cons, ← ih]
      cases p x <;> rfl

/-- Related lists: every element of the second has a partner in the first. -/
lemma exists_partner {R : α → β → Prop} {as : List α} {bs : List β} (h : List.Forall₂ R as bs)
    {b : β} (hb : b ∈ bs) : ∃ a ∈ as, R a b := by
  induction h with
  | nil => cases hb
  | cons hR _ ih =>
      cases List.mem_cons.mp hb with
      | inl he => exact ⟨_, List.mem_cons_self, he ▸ hR⟩
      | inr hmem =>
          obtain ⟨a, hmem, hR⟩ := ih hmem
          exact ⟨a, List.mem_cons_of_mem _ hmem, hR⟩

/-- Two lists related to a third are related to each other through it. -/
lemma forall₂_through {R : α → γ → Prop} {Q : β → γ → Prop} {as : List α} {bs : List β}
    {cs : List γ} (ha : List.Forall₂ R as cs) (hb : List.Forall₂ Q bs cs) :
    List.Forall₂ (fun a b => ∃ c, R a c ∧ Q b c) as bs := by
  induction ha generalizing bs with
  | nil =>
      cases hb
      exact .nil
  | cons hR _ ih =>
      cases hb with
      | cons hQ hb => exact .cons ⟨_, hR, hQ⟩ (ih hb)

/-- Related lists between which a third list can be put. -/
lemma forall₂_between {R : α → γ → Prop} {Q : α → β → Prop} {T : β → γ → Prop} {as : List α}
    {cs : List γ} (h : List.Forall₂ R as cs) (hmid : ∀ a c, c ∈ cs → R a c → ∃ b, Q a b ∧ T b c) :
    ∃ bs, List.Forall₂ Q as bs ∧ List.Forall₂ T bs cs := by
  induction h with
  | nil => exact ⟨[], .nil, .nil⟩
  | cons hR _ ih =>
      obtain ⟨b, hQ, hT⟩ := hmid _ _ List.mem_cons_self hR
      obtain ⟨bs, hQs, hTs⟩ := ih (fun a c hc => hmid a c (List.mem_cons_of_mem _ hc))
      exact ⟨b :: bs, .cons hQ hQs, .cons hT hTs⟩

/-- Items dealt by their keys: different keys in every part are different overall. -/
theorem nodup_keys_flatten {itemKey : α → β} {target : β → ℕ} {index : γ → ℕ} {parts : List γ}
    {lists : List (List α)} (hparts : (parts.map index).Nodup)
    (h : List.Forall₂ (fun p items => (items.map itemKey).Nodup ∧
      ∀ i ∈ items, target (itemKey i) = index p) parts lists) :
    (lists.flatten.map itemKey).Nodup := by
  induction h with
  | nil => exact List.nodup_nil
  | @cons p items parts lists hp hrest ih =>
      rw [List.map_cons, List.nodup_cons] at hparts
      rw [List.flatten_cons, List.map_append]
      refine List.nodup_append.mpr ⟨hp.1, ih hparts.2, ?_⟩
      rintro k hk _ hk' rfl
      obtain ⟨i, hi, rfl⟩ := List.mem_map.mp hk
      obtain ⟨j, hj, hkey⟩ := List.mem_map.mp hk'
      obtain ⟨l, hl, hjl⟩ := List.mem_flatten.mp hj
      obtain ⟨q, hq, -, htarget⟩ := exists_partner hrest hl
      have hindex : index q = index p := by rw [← htarget j hjl, hkey, hp.2 i hi]
      exact hparts.1 (hindex ▸ List.mem_map_of_mem hq)

end Dealing
