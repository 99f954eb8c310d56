import Mathlib.Data.List.Forall2
import Mathlib.Data.List.Perm.Basic
import MiniSpark.Dealing
import MiniSpark.OrderedDict

/-!
# Items that summarise batches

A list of items summarises elements when each item summarises a batch of them
and the batches together are the elements, in some order. Summaries of two lists
may be put together, and a dictionary stays a summary when one entry absorbs a
new batch. Where items have different keys, each summarises all elements of its key.
-/
namespace Summaries

variable {ι α : Type} {P : ι → List α → Prop}

/-- Each item summarises a batch; the batches make up `xs`. -/
def Summarise (P : ι → List α → Prop) (items : List ι) (xs : List α) : Prop :=
  ∃ batches, List.Forall₂ P items batches ∧ batches.flatten.Perm xs

theorem Summarise.nil : Summarise P [] [] := ⟨[], .nil, .nil⟩

theorem Summarise.perm {items : List ι} {xs ys : List α} (h : Summarise P items xs)
    (hp : xs.Perm ys) : Summarise P items ys := by
  obtain ⟨batches, hb, hx⟩ := h
  exact ⟨batches, hb, hx.trans hp⟩

theorem Summarise.perm_items {items items' : List ι} {xs : List α} (h : Summarise P items xs)
    (hp : items'.Perm items) : Summarise P items' xs := by
  obtain ⟨batches, hb, hx⟩ := h
  obtain ⟨batches', hb', hperm⟩ := List.perm_comp_forall₂ hp hb
  exact ⟨batches', hb', hperm.flatten.trans hx⟩

theorem Summarise.append {as bs : List ι} {xs ys : List α} (ha : Summarise P as xs)
    (hb : Summarise P bs ys) : Summarise P (as ++ bs) (xs ++ ys) := by
  obtain ⟨batches, ha, hx⟩ := ha
  obtain ⟨batches', hb, hy⟩ := hb
  refine ⟨batches ++ batches', List.rel_append ha hb, ?_⟩
  rw [List.flatten_append]
  exact hx.append hy

theorem Summarise.singleton {i : ι} {xs : List α} (h : P i xs) : Summarise P [i] xs :=
  ⟨[xs], .cons h .nil, by simp⟩

theorem Summarise.of_append {as bs : List ι} {zs : List α} (h : Summarise P (as ++ bs) zs) :
    ∃ xs ys, Summarise P as xs ∧ Summarise P bs ys ∧ (xs ++ ys).Perm zs := by
  obtain ⟨batches, hb, hz⟩ := h
  have ha := List.forall₂_take as.length hb
  have hb := List.forall₂_drop as.length hb
  rw [List.take_left] at ha
  rw [List.drop_left] at hb
  refine ⟨_, _, ⟨_, ha, .refl _⟩, ⟨_, hb, .refl _⟩, ?_⟩
  rw [← List.flatten_append, List.take_append_drop]
  exact hz

theorem Summarise.of_cons {i : ι} {items : List ι} {zs : List α}
    (h : Summarise P (i :: items) zs) :
    ∃ xs ys, P i xs ∧ Summarise P items ys ∧ (xs ++ ys).Perm zs := by
  obtain ⟨_, hb, hz⟩ := h
  cases hb with
  | cons hi hrest => exact ⟨_, _, hi, ⟨_, hrest, .refl _⟩, hz⟩

/-- A summary of summaries. -/
theorem Summarise.flatten {lists : List (List ι)} {batches : List (List α)}
    (h : List.Forall₂ (Summarise P) lists batches) : Summarise P lists.flatten batches.flatten := by
  induction h with
  | nil => exact .nil
  | cons h _ ih => exact h.append ih

/-- Items that stand for the items of a summary. -/
theorem Summarise.rel {κ : Type} {R : ι → κ → Prop} {Q : κ → List α → Prop} {items : List ι}
    {outs : List κ} {xs : List α} (h : Summarise P items xs) (hR : List.Forall₂ R items outs)
    (hQ : ∀ i o b, R i o → P i b → Q o b) : Summarise Q outs xs := by
  obtain ⟨batches, hb, hx⟩ := h
  refine ⟨batches, ?_, hx⟩
  clear hx
  induction hR generalizing batches with
  | nil =>
      cases hb
      exact .nil
  | cons hio _ ih =>
      cases hb with
      | cons hi hrest => exact .cons (hQ _ _ _ hio hi) (ih _ hrest)

/-- A summary of lists put together splits into summaries of the lists. -/
theorem Summarise.of_flatten {lists : List (List ι)} {xs : List α}
    (h : Summarise P lists.flatten xs) :
    ∃ batches, List.Forall₂ (Summarise P) lists batches ∧ batches.flatten.Perm xs := by
  induction lists generalizing xs with
  | nil =>
      obtain ⟨_, hb, hx⟩ := h
      cases hb
      exact ⟨[], .nil, hx⟩
  | cons items lists ih =>
      obtain ⟨ys, zs, hys, hzs, hx⟩ := h.of_append
      obtain ⟨batches, hb, hperm⟩ := ih hzs
      exact ⟨ys :: batches, .cons hys hb, (hperm.append_left ys).trans hx⟩

/-- Every element is in the batch of an item. -/
theorem Summarise.exists_item {items : List ι} {xs : List α} (h : Summarise P items xs) {a : α}
    (ha : a ∈ xs) : ∃ i ∈ items, ∃ b, P i b ∧ a ∈ b := by
  obtain ⟨batches, hb, hx⟩ := h
  obtain ⟨b, hmem, hab⟩ := List.mem_flatten.mp (hx.mem_iff.mpr ha)
  obtain ⟨i, hi, hP⟩ := Dealing.exists_partner hb hmem
  exact ⟨i, hi, b, hP, hab⟩

/-- Every item summarises a batch of the elements. -/
theorem Summarise.exists_batch {items : List ι} {xs : List α} (h : Summarise P items xs) {i : ι}
    (hi : i ∈ items) : ∃ b, P i b ∧ b ⊆ xs := by
  obtain ⟨batches, hb, hx⟩ := h
  obtain ⟨b, hmem, hP⟩ := Dealing.exists_partner hb.flip hi
  exact ⟨b, hP, fun a ha => hx.mem_iff.mp (List.mem_flatten_of_mem hmem ha)⟩

section Keyed

variable {K : Type} [DecidableEq K] {itemKey : ι → K} {key : α → K}

/-- Items with different keys: each summarises all elements of its key. -/
theorem Summarise.of_key {items : List ι} {xs : List α}
    (hkey : ∀ i b, P i b → ∀ a ∈ b, key a = itemKey i) (hnd : (items.map itemKey).Nodup)
    (h : Summarise P items xs) :
    ∀ i ∈ items, ∃ b, P i b ∧ b.Perm (xs.filter (fun a => key a = itemKey i)) := by
  obtain ⟨batches, hb, hx⟩ := h
  intro i hi
  have hbatch : ∃ b, P i b ∧ batches.flatten.filter (fun a => key a = itemKey i) = b := by
    clear hx
    induction hb with
    | nil => cases hi
    | @cons j b items batches hj hrest ih =>
        rw [List.map_cons, List.nodup_cons] at hnd
        rw [List.flatten_cons, List.filter_append]
        by_cases hij : itemKey j = itemKey i
        · have hnone : batches.flatten.filter (fun a => key a = itemKey i) = [] := by
            rw [List.filter_eq_nil_iff]
            intro a ha hka
            obtain ⟨b', hb', ha⟩ := List.mem_flatten.mp ha
            obtain ⟨k, hk, hPk⟩ := Dealing.exists_partner hrest hb'
            refine hnd.1 ?_
            rw [hij, ← of_decide_eq_true hka, hkey k b' hPk a ha]
            exact List.mem_map_of_mem hk
          have hall : b.filter (fun a => key a = itemKey i) = b := by
            refine List.filter_eq_self.mpr (fun a ha => ?_)
            rw [decide_eq_true_iff, hkey j b hj a ha, hij]
          obtain rfl : i = j := by
            cases List.mem_cons.mp hi with
            | inl h => exact h
            | inr h => exact absurd (hij ▸ List.mem_map_of_mem h) hnd.1
          exact ⟨b, hj, by rw [hall, hnone, List.append_nil]⟩
        · have hi' : i ∈ items := by
            cases List.mem_cons.mp hi with
            | inl h => exact absurd (h ▸ rfl) hij
            | inr h => exact h
          obtain ⟨b', hb', hfilter⟩ := ih hnd.2 hi'
          have hnone : b.filter (fun a => key a = itemKey i) = [] := by
            rw [List.filter_eq_nil_iff]
            intro a ha hka
            exact hij ((hkey j b hj a ha).symm.trans (of_decide_eq_true hka))
          exact ⟨b', hb', by rw [hnone, List.nil_append, hfilter]⟩
  obtain ⟨b, hb, hfilter⟩ := hbatch
  exact ⟨b, hb, hfilter ▸ hx.filter _⟩

/-- Where a batch determines its item, two summaries of the same elements have the same items. -/
theorem Summarise.perm_of_unique {items items' : List ι} {xs : List α}
    (hkey : ∀ i b, P i b → b ≠ [] ∧ ∀ a ∈ b, key a = itemKey i)
    (hunique : ∀ i i' b b', P i b → P i' b' → b.Perm b' → i = i')
    (h : Summarise P items xs) (h' : Summarise P items' xs) (hnd : (items.map itemKey).Nodup)
    (hnd' : (items'.map itemKey).Nodup) : items.Perm items' := by
  have hsub : ∀ {is js : List ι}, Summarise P is xs → Summarise P js xs → (is.map itemKey).Nodup →
      (js.map itemKey).Nodup → ∀ i ∈ is, i ∈ js := by
    intro is js his hjs hndi hndj i hi
    obtain ⟨b, hb, hperm⟩ := his.of_key (fun i b hP => (hkey i b hP).2) hndi i hi
    obtain ⟨a, ha⟩ := List.exists_mem_of_ne_nil b (hkey i b hb).1
    have hax : a ∈ xs := List.mem_of_mem_filter (hperm.mem_iff.mp ha)
    obtain ⟨j, hj, c, hc, hac⟩ := hjs.exists_item hax
    have hij : itemKey j = itemKey i := by
      rw [← (hkey j c hc).2 a hac, (hkey i b hb).2 a ha]
    obtain ⟨b', hb', hperm'⟩ := hjs.of_key (fun i b hP => (hkey i b hP).2) hndj j hj
    rw [hij] at hperm'
    rwa [hunique i j b b' hb hb' (hperm.trans hperm'.symm)]
  exact (List.perm_ext_iff_of_nodup hnd.of_map hnd'.of_map).mpr
    (fun i => ⟨hsub h h' hnd hnd' i, hsub h' h hnd' hnd i⟩)

end Keyed

section Dictionary

variable {K V : Type} [BEq K] {P : K × V → List α → Prop} {S : K → Prop}

/-- The entry a lookup finds summarises a batch under that key. -/
theorem Summarise.of_get? {d : OrderedDict K V} {k : K} {v : V} {xs : List α}
    (hS : OrderedDict.LawfulOn S) (hd : d.KeysIn S) (hk : S k) (h : Summarise P d.items xs)
    (hget : d.get? k = some v) : ∃ b, P (k, v) b := by
  obtain ⟨⟨k', v'⟩, hfind, rfl⟩ := Option.map_eq_some_iff.mp hget
  have hmem := List.mem_of_find?_eq_some hfind
  have hkey : (k' == k) = true := List.find?_some (p := fun p : K × V => p.1 == k) hfind
  obtain rfl := (hS k' k (hd k' (List.mem_map_of_mem hmem)) hk).mp hkey
  obtain ⟨b, hb, -⟩ := h.exists_batch hmem
  exact ⟨b, hb⟩

/-- One entry of a dictionary absorbs a batch under the key it has, or a new entry starts
with it. -/
theorem Summarise.set_entry {d : OrderedDict K V} {k : K} {v : V} {xs ys : List α}
    (h : Summarise P d.items xs) (hnew : d.get? k = none → P (k, v) ys)
    (hold : ∀ k' s b, k' ∈ d.keys → (k' == k) = true → d.get? k = some s → P (k', s) b →
      P (k', v) (b ++ ys)) :
    Summarise P (d.set k v).items (xs ++ ys) := by
  rw [OrderedDict.items_set]
  obtain ⟨hnone, hset⟩ | ⟨pre, ⟨k', s⟩, post, hitems, hp, hfind, hset⟩ :=
    OrderedDict.setItems_cases k v d.items
  · rw [hset]
    exact h.append (.singleton (hnew (by rw [OrderedDict.get?, hnone]; rfl)))
  · have hmem : k' ∈ d.keys := by
      rw [OrderedDict.keys, hitems]
      simp
    rw [hitems] at h
    obtain ⟨xs₁, zs, hpre, hrest, hxs⟩ := h.of_append
    obtain ⟨b, xs₂, hb, hpost, hzs⟩ := hrest.of_cons
    have hnext : P (k', v) (b ++ ys) :=
      hold k' s b hmem hp (by rw [OrderedDict.get?, hfind]; rfl) hb
    have hcons := (Summarise.singleton hnext).append hpost
    rw [hset]
    refine (hpre.append hcons).perm ?_
    have hmove : ((b ++ ys) ++ xs₂).Perm ((b ++ xs₂) ++ ys) := by
      rw [List.append_assoc, List.append_assoc]
      exact List.perm_append_comm.append_left b
    calc (xs₁ ++ ((b ++ ys) ++ xs₂)).Perm (xs₁ ++ ((b ++ xs₂) ++ ys)) := hmove.append_left xs₁
      _ = ((xs₁ ++ (b ++ xs₂)) ++ ys) := (List.append_assoc _ _ _).symm
      List.Perm _ (xs ++ ys) := ((hzs.append_left xs₁).trans hxs).append_right ys

/-- Where equal keys are identical. -/
theorem Summarise.set {d : OrderedDict K V} {k : K} {v : V} {xs ys : List α}
    (hS : OrderedDict.LawfulOn S) (hd : d.KeysIn S) (hk : S k) (h : Summarise P d.items xs)
    (hnew : d.get? k = none → P (k, v) ys)
    (hold : ∀ s b, d.get? k = some s → P (k, s) b → P (k, v) (b ++ ys)) :
    Summarise P (d.set k v).items (xs ++ ys) := by
  refine h.set_entry hnew (fun k' s b hmem hk' hget hb => ?_)
  obtain rfl : k' = k := (hS k' k (hd k' hmem) hk).mp hk'
  exact hold s b hget hb

end Dictionary

end Summaries
