import Mathlib.Data.List.Basic
import Mathlib.Data.List.Perm.Basic
import Mathlib.Data.List.Forall2
import Mathlib.Data.List.Count
import Mathlib.Data.List.Range
import Mathlib.Order.Basic

/-!
# Stable sorting

A stable sort of `xs` by a total preorder is the sorted list in which every
class of equivalent elements keeps its order in `xs`. It is unique, which is
what makes different ways of computing it agree: repeated passes by one key
after another, sorted runs merged, or ranges sorted apart and concatenated.
The preorder is only required to be total on the elements that occur.
-/
namespace StableSort

variable {α : Type*}

/-- `le` is a total preorder on the elements satisfying `P`. -/
structure TotalPreorderOn (le : α → α → Bool) (P : α → Prop) : Prop where
  total : ∀ a b, P a → P b → le a b = true ∨ le b a = true
  trans : ∀ a b c, P a → P b → P c → le a b = true → le b c = true → le a c = true

/-- Equivalent elements: neither comes strictly first. -/
def eqv (le : α → α → Bool) (x y : α) : Bool := le x y && le y x

/-- `ys` is the stable sort of `xs`. -/
structure IsStableSort (le : α → α → Bool) (xs ys : List α) : Prop where
  perm : ys.Perm xs
  sorted : ys.Pairwise (fun a b => le a b = true)
  classes : ∀ x ∈ xs, ys.filter (eqv le x) = xs.filter (eqv le x)

namespace TotalPreorderOn

variable {le : α → α → Bool} {P Q : α → Prop}

theorem refl (h : TotalPreorderOn le P) {a : α} (ha : P a) : le a a = true :=
  (h.total a a ha ha).elim id id

theorem eqv_self (h : TotalPreorderOn le P) {a : α} (ha : P a) : eqv le a a = true := by
  simp [eqv, h.refl ha]

theorem mono (h : TotalPreorderOn le P) (hQ : ∀ a, Q a → P a) : TotalPreorderOn le Q where
  total a b ha hb := h.total a b (hQ a ha) (hQ b hb)
  trans a b c ha hb hc := h.trans a b c (hQ a ha) (hQ b hb) (hQ c hc)

end TotalPreorderOn

/-- Sorted lists with the same classes are equal. -/
theorem eq_of_sorted_of_classes {le : α → α → Bool} {P : α → Prop} (hle : TotalPreorderOn le P)
    {ys zs : List α} (hy : ∀ a ∈ ys, P a) (hz : ∀ a ∈ zs, P a)
    (sy : ys.Pairwise (fun a b => le a b = true)) (sz : zs.Pairwise (fun a b => le a b = true))
    (h : ∀ x, P x → ys.filter (eqv le x) = zs.filter (eqv le x)) : ys = zs := by
  induction ys generalizing zs with
  | nil =>
      cases zs with
      | nil => rfl
      | cons b zs =>
          have hb := h b (hz b (by simp))
          simp [hle.eqv_self (hz b (by simp))] at hb
  | cons a ys ih =>
      have ha : P a := hy a (by simp)
      have haa := hle.eqv_self ha
      cases zs with
      | nil =>
          have := h a ha
          simp [haa] at this
      | cons b zs =>
          have hb : P b := hz b (by simp)
          have hab : le a b = true := by
            have hmem : b ∈ (a :: ys).filter (eqv le b) := by
              rw [h b hb]
              simp [hle.eqv_self hb]
            rcases List.mem_cons.mp (List.mem_of_mem_filter hmem) with rfl | hm
            · exact hle.refl hb
            · exact List.rel_of_pairwise_cons sy hm
          have hba : le b a = true := by
            have hmem : a ∈ (b :: zs).filter (eqv le a) := by
              rw [← h a ha]
              simp [haa]
            rcases List.mem_cons.mp (List.mem_of_mem_filter hmem) with rfl | hm
            · exact hle.refl ha
            · exact List.rel_of_pairwise_cons sz hm
          have hhead := h a ha
          have heqv : eqv le a b = true := by simp [eqv, hab, hba]
          simp only [List.filter_cons, haa, heqv, if_true, List.cons.injEq] at hhead
          obtain ⟨rfl, -⟩ := hhead
          have htail : ys = zs := by
            refine ih (fun c hc => hy c (by simp [hc])) (fun c hc => hz c (by simp [hc]))
              (List.Pairwise.of_cons sy) (List.Pairwise.of_cons sz) ?_
            intro x hx
            have hxe := h x hx
            simp only [List.filter_cons] at hxe
            split at hxe
            · exact (List.cons.inj hxe).2
            · exact hxe
          rw [htail]

namespace IsStableSort

variable {le : α → α → Bool} {xs ys zs : List α}

theorem mem_iff (h : IsStableSort le xs ys) {a : α} : a ∈ ys ↔ a ∈ xs := h.perm.mem_iff

/-- A list has one stable sort. -/
theorem unique (hle : TotalPreorderOn le (· ∈ xs)) (hy : IsStableSort le xs ys)
    (hz : IsStableSort le xs zs) : ys = zs :=
  eq_of_sorted_of_classes hle (fun _ ha => hy.mem_iff.mp ha) (fun _ ha => hz.mem_iff.mp ha)
    hy.sorted hz.sorted (fun x hx => (hy.classes x hx).trans (hz.classes x hx).symm)

/-- Any class of the input, also one no element of which occurs. -/
theorem classes' (h : IsStableSort le xs ys) {P : α → Prop} (hle : TotalPreorderOn le P)
    (hP : ∀ a ∈ xs, P a) {x : α} (hx : P x) :
    ys.filter (eqv le x) = xs.filter (eqv le x) := by
  by_cases hex : ∃ a ∈ xs, eqv le x a = true
  · obtain ⟨a, ha, hxa⟩ := hex
    have hsame : ∀ b, P b → eqv le x b = eqv le a b := by
      intro b hb
      simp only [eqv, Bool.and_eq_true] at hxa
      have hpa := hP a ha
      rw [Bool.eq_iff_iff]
      simp only [eqv, Bool.and_eq_true]
      constructor
      · rintro ⟨h1, h2⟩
        exact ⟨hle.trans a x b hpa hx hb hxa.2 h1, hle.trans b x a hb hx hpa h2 hxa.1⟩
      · rintro ⟨h1, h2⟩
        exact ⟨hle.trans x a b hx hpa hb hxa.1 h1, hle.trans b a x hb hpa hx h2 hxa.2⟩
    rw [List.filter_congr (fun b hb => hsame b (hP b (h.mem_iff.mp hb))),
      List.filter_congr (fun b hb => hsame b (hP b hb)), h.classes a ha]
  · have hnone : ∀ a ∈ xs, ¬ eqv le x a = true := fun a ha hxa => hex ⟨a, ha, hxa⟩
    rw [List.filter_eq_nil_iff.mpr hnone,
      List.filter_eq_nil_iff.mpr (fun a ha => hnone a (h.mem_iff.mp ha))]

end IsStableSort

section MergeSort

variable {le : α → α → Bool}

/-- Extend a preorder on `P` to all elements by putting the others last. -/
noncomputable def extend (le : α → α → Bool) (P : α → Prop) (a b : α) : Bool := by
  classical exact if P a then (if P b then le a b else true) else (if P b then false else true)

lemma extend_of_mem {P : α → Prop} {a b : α} (ha : P a) (hb : P b) :
    extend le P a b = le a b := by simp [extend, ha, hb]

lemma extend_total {P : α → Prop} (h : TotalPreorderOn le P) (a b : α) :
    (extend le P a b || extend le P b a) = true := by
  by_cases ha : P a <;> by_cases hb : P b <;> simp [extend, ha, hb]
  exact h.total a b ha hb

lemma extend_trans {P : α → Prop} (h : TotalPreorderOn le P) (a b c : α)
    (hab : extend le P a b = true) (hbc : extend le P b c = true) : extend le P a c = true := by
  by_cases ha : P a <;> by_cases hb : P b <;> by_cases hc : P c <;>
    simp_all [extend]
  exact h.trans a b c ha hb hc hab hbc

lemma mergeSort_extend (xs : List α) :
    xs.mergeSort (extend le (· ∈ xs)) = xs.mergeSort le := by
  have h := List.map_mergeSort (f := id) (r := extend le (· ∈ xs)) (s := le) (l := xs)
    (fun a ha b hb => extend_of_mem ha hb)
  simpa using h

lemma sorted_mergeSort {xs : List α} (h : TotalPreorderOn le (· ∈ xs)) :
    (xs.mergeSort le).Pairwise (fun a b => le a b = true) := by
  have hp := List.pairwise_mergeSort (extend_trans h) (extend_total h) xs
  rw [mergeSort_extend] at hp
  refine hp.imp_of_mem ?_
  intro a b ha hb hab
  rwa [extend_of_mem (List.mem_mergeSort.mp ha) (List.mem_mergeSort.mp hb)] at hab

/-- `mergeSort` is the stable sort. -/
theorem isStableSort_mergeSort {xs : List α} (h : TotalPreorderOn le (· ∈ xs)) :
    IsStableSort le xs (xs.mergeSort le) where
  perm := List.mergeSort_perm xs le
  sorted := sorted_mergeSort h
  classes := by
    intro x hx
    have hclass : (xs.filter (eqv le x)).Pairwise (fun a b => extend le (· ∈ xs) a b = true) := by
      rw [List.pairwise_iff_forall_sublist]
      intro a b hab
      have ha : a ∈ xs.filter (eqv le x) := hab.subset (by simp)
      have hb : b ∈ xs.filter (eqv le x) := hab.subset (by simp)
      obtain ⟨ham, hxa⟩ := List.mem_filter.mp ha
      obtain ⟨hbm, hxb⟩ := List.mem_filter.mp hb
      simp only [eqv, Bool.and_eq_true] at hxa hxb
      rw [extend_of_mem ham hbm]
      exact h.trans a x b ham hx hbm hxa.2 hxb.1
    have hsub := List.sublist_mergeSort (extend_trans h) (extend_total h) hclass
      List.filter_sublist
    rw [mergeSort_extend] at hsub
    have hsub' := hsub.filter (eqv le x)
    rw [List.filter_filter] at hsub'
    simp only [Bool.and_self] at hsub'
    have hlen := ((List.mergeSort_perm xs le).filter (eqv le x)).length_eq
    exact (hsub'.eq_of_length hlen.symm).symm

/-- A sorted list is its own stable sort. -/
theorem IsStableSort.of_sorted {xs : List α} (h : xs.Pairwise (fun a b => le a b = true)) :
    IsStableSort le xs xs := ⟨List.Perm.refl _, h, fun _ _ => rfl⟩

end MergeSort

section Lexicographic

/-- Compare by `first`, and by `second` where `first` does not decide. -/
def lexLe (first second : α → α → Bool) (a b : α) : Bool :=
  first a b && (!first b a || second a b)

variable {first second : α → α → Bool}

theorem TotalPreorderOn.lex {P : α → Prop} (h₁ : TotalPreorderOn first P)
    (h₂ : TotalPreorderOn second P) : TotalPreorderOn (lexLe first second) P where
  total a b ha hb := by
    have t₁ := h₁.total a b ha hb
    have t₂ := h₂.total a b ha hb
    cases hab : first a b <;> cases hba : first b a <;> simp_all [lexLe]
  trans a b c ha hb hc hab hbc := by
    simp only [lexLe, Bool.and_eq_true, Bool.or_eq_true, Bool.not_eq_true'] at *
    refine ⟨h₁.trans a b c ha hb hc hab.1 hbc.1, ?_⟩
    by_cases hca : first c a = true
    · have hba := h₁.trans b c a hb hc ha hbc.1 hca
      have hcb := h₁.trans c a b hc ha hb hca hab.1
      right
      exact h₂.trans a b c ha hb hc (by simpa [hba] using hab.2) (by simpa [hcb] using hbc.2)
    · left
      simpa using hca

lemma eqv_lexLe (x y : α) :
    eqv (lexLe first second) x y = (eqv first x y && eqv second x y) := by
  cases h1 : first x y <;> cases h2 : first y x <;> simp [eqv, lexLe, h1, h2]

/-- Three orders one after another. -/
lemma lexLe_assoc (first second third : α → α → Bool) (x y : α) :
    lexLe (lexLe first second) third x y = lexLe first (lexLe second third) x y := by
  simp only [lexLe]
  cases first x y <;> cases first y x <;> cases second x y <;> cases second y x <;>
    cases third x y <;> rfl

/-- Sorting by the second key and then, stably, by the first is sorting
lexicographically. -/
theorem IsStableSort.lex {xs ys zs : List α} (h₁ : TotalPreorderOn first (· ∈ xs))
    (hy : IsStableSort second xs ys) (hz : IsStableSort first ys zs) :
    IsStableSort (lexLe first second) xs zs where
  perm := hz.perm.trans hy.perm
  sorted := by
    rw [List.pairwise_iff_forall_sublist]
    intro a b hab
    have ha : a ∈ ys := hz.mem_iff.mp (hab.subset (by simp))
    have hfirst : first a b = true := List.pairwise_iff_forall_sublist.mp hz.sorted hab
    by_cases hba : first b a = true
    · have haa := h₁.eqv_self (hy.mem_iff.mp ha)
      have hclass : [a, b].Sublist (zs.filter (eqv first a)) := by
        have hf := hab.filter (eqv first a)
        simpa [haa, show eqv first a b = true by simp [eqv, hfirst, hba]] using hf
      rw [hz.classes a ha] at hclass
      have hs := List.pairwise_iff_forall_sublist.mp hy.sorted
        (hclass.trans List.filter_sublist)
      simp [lexLe, hfirst, hs]
    · simp [lexLe, hfirst, hba]
  classes := by
    intro x hx
    have hxy := hy.mem_iff.mpr hx
    have hsplit : ∀ l : List α, l.filter (eqv (lexLe first second) x) =
        (l.filter (eqv first x)).filter (eqv second x) := by
      intro l
      rw [List.filter_filter]
      exact List.filter_congr (fun y _ => by rw [eqv_lexLe, Bool.and_comm])
    rw [hsplit, hsplit, hz.classes x hxy, List.filter_filter, List.filter_filter]
    have hswap : ∀ l : List α, l.filter (fun y => eqv second x y && eqv first x y) =
        (l.filter (eqv second x)).filter (eqv first x) := by
      intro l
      rw [List.filter_filter]
      exact List.filter_congr (fun y _ => by rw [Bool.and_comm])
    rw [hswap, hswap, hy.classes x hx]

end Lexicographic

section Merge

variable {le : α → α → Bool}

/-- Merge sorted runs; on ties the earlier run comes first. -/
def mergeAll (le : α → α → Bool) (runs : List (List α)) : List α :=
  runs.foldr (fun run rest => run.merge rest le) []

lemma sorted_merge {P : α → Prop} (h : TotalPreorderOn le P) {xs ys : List α}
    (hx : ∀ a ∈ xs, P a) (hy : ∀ a ∈ ys, P a) (sx : xs.Pairwise (fun a b => le a b = true))
    (sy : ys.Pairwise (fun a b => le a b = true)) :
    (xs.merge ys le).Pairwise (fun a b => le a b = true) := by
  have hcongr : (xs.merge ys (extend le P)).map id = (xs.map id).merge (ys.map id) le :=
    List.map_merge (fun a ha b hb => extend_of_mem (hx a ha) (hy b hb))
  simp only [List.map_id_fun, id_eq] at hcongr
  have sx' : xs.Pairwise (fun a b => extend le P a b = true) :=
    sx.imp_of_mem (fun ha hb hab => by rwa [extend_of_mem (hx _ ha) (hx _ hb)])
  have sy' : ys.Pairwise (fun a b => extend le P a b = true) :=
    sy.imp_of_mem (fun ha hb hab => by rwa [extend_of_mem (hy _ ha) (hy _ hb)])
  have hm := List.pairwise_merge (extend_trans h) (extend_total h) xs ys sx' sy'
  rw [hcongr] at hm
  refine hm.imp_of_mem (fun {a b} ha hb hab => ?_)
  have hP : ∀ c ∈ xs.merge ys le, P c :=
    fun c hc => (List.mem_merge.mp hc).elim (hx c) (hy c)
  rwa [extend_of_mem (hP a ha) (hP b hb)] at hab

theorem mergeAll_perm (runs : List (List α)) : (mergeAll le runs).Perm runs.flatten := by
  induction runs with
  | nil => exact List.Perm.refl _
  | cons run runs ih => exact (List.merge_perm_append le).trans (ih.append_left run)

theorem sorted_mergeAll {P : α → Prop} (h : TotalPreorderOn le P) {runs : List (List α)}
    (hP : ∀ run ∈ runs, ∀ a ∈ run, P a)
    (hs : ∀ run ∈ runs, run.Pairwise (fun a b => le a b = true)) :
    (mergeAll le runs).Pairwise (fun a b => le a b = true) := by
  induction runs with
  | nil => simp [mergeAll]
  | cons run runs ih =>
      have hrest := ih (fun r hr => hP r (by simp [hr])) (fun r hr => hs r (by simp [hr]))
      refine sorted_merge h (hP run (by simp)) ?_ (hs run (by simp)) hrest
      intro a ha
      obtain ⟨r, hr, har⟩ := List.mem_flatten.mp ((mergeAll_perm runs).mem_iff.mp ha)
      exact hP r (by simp [hr]) a har

/-- Where only equal elements are equivalent, being sorted is enough. -/
theorem IsStableSort.of_antisymm {xs ys : List α} (hperm : ys.Perm xs)
    (hs : ys.Pairwise (fun a b => le a b = true))
    (hanti : ∀ a ∈ xs, ∀ b ∈ xs, le a b = true → le b a = true → a = b) :
    IsStableSort le xs ys where
  perm := hperm
  sorted := hs
  classes := by
    intro x hx
    have hconst : ∀ l : List α, (∀ a ∈ l, a ∈ xs) →
        l.filter (eqv le x) = List.replicate (l.filter (eqv le x)).length x := by
      intro l hl
      rw [List.eq_replicate_iff]
      refine ⟨rfl, fun b hb => ?_⟩
      obtain ⟨hbl, hxb⟩ := List.mem_filter.mp hb
      simp only [eqv, Bool.and_eq_true] at hxb
      exact (hanti x hx b (hl b hbl) hxb.1 hxb.2).symm
    rw [hconst ys (fun a ha => hperm.mem_iff.mp ha), hconst xs (fun a ha => ha),
      (hperm.filter _).length_eq]

/-- Merging keyed runs, with an order read off the keys. -/
theorem map_mergeAll {β : Type*} {f : α → β} {s : β → β → Bool} {runs : List (List α)}
    (h : ∀ a ∈ runs.flatten, ∀ b ∈ runs.flatten, le a b = s (f a) (f b)) :
    (mergeAll le runs).map f = mergeAll s (runs.map (List.map f)) := by
  induction runs with
  | nil => rfl
  | cons run runs ih =>
      have hrest := ih (fun a ha b hb => h a (by simp [ha]) b (by simp [hb]))
      show (run.merge (mergeAll le runs) le).map f = (run.map f).merge (mergeAll s _) s
      rw [← hrest]
      refine List.map_merge (fun a ha b hb => h a (by simp [ha]) b ?_)
      rw [List.flatten_cons]
      exact List.mem_append_right _ ((mergeAll_perm runs).mem_iff.mp hb)

end Merge

section Tagged

variable {le : α → α → Bool}

/-- The stable sort read through a map. -/
theorem IsStableSort.map {β : Type*} {f : β → α} {xs ys : List β}
    (h : IsStableSort (fun a b => le (f a) (f b)) xs ys) :
    IsStableSort le (xs.map f) (ys.map f) where
  perm := h.perm.map f
  sorted := List.pairwise_map.mpr h.sorted
  classes := by
    intro x hx
    obtain ⟨a, ha, rfl⟩ := List.mem_map.mp hx
    rw [List.filter_map, List.filter_map]
    exact congrArg (List.map f) (h.classes a ha)

/-- Where ties are broken by a second order in which the input is sorted already, sorting by
both is the stable sort by the first. -/
theorem IsStableSort.of_tagged {tag : α → α → Bool} {xs ys : List α}
    (h : TotalPreorderOn le (· ∈ xs)) (htag : TotalPreorderOn tag (· ∈ xs))
    (hxs : xs.Pairwise (fun a b => tag a b = true)) (hy : IsStableSort (lexLe le tag) xs ys) :
    IsStableSort le xs ys := by
  have hsort := isStableSort_mergeSort h
  have hlex := IsStableSort.lex h (IsStableSort.of_sorted hxs) hsort
  rw [hy.unique (h.lex htag) hlex]
  exact hsort

/-- A stable sort of an input in tag order is sorted by both. -/
theorem IsStableSort.tagged {tag : α → α → Bool} {xs ys : List α}
    (h : TotalPreorderOn le (· ∈ xs)) (hxs : xs.Pairwise (fun a b => tag a b = true))
    (hy : IsStableSort le xs ys) : IsStableSort (lexLe le tag) xs ys :=
  IsStableSort.lex h (IsStableSort.of_sorted hxs) hy

end Tagged

section Ranges

variable {le : α → α → Bool}

/-- Sorted with the right elements and classes: multiplicities follow from the classes. -/
theorem IsStableSort.of_classes {xs ys : List α} (h : TotalPreorderOn le (· ∈ xs))
    (hmem : ∀ a ∈ ys, a ∈ xs) (hs : ys.Pairwise (fun a b => le a b = true))
    (hc : ∀ x ∈ xs, ys.filter (eqv le x) = xs.filter (eqv le x)) : IsStableSort le xs ys where
  perm := by
    classical
    rw [List.perm_iff_count]
    intro a
    by_cases ha : a ∈ xs
    · have haa := h.eqv_self ha
      rw [← List.count_filter (p := eqv le a) haa, hc a ha, List.count_filter haa]
    · rw [List.count_eq_zero_of_not_mem ha, List.count_eq_zero_of_not_mem (fun hy => ha (hmem a hy))]
  sorted := hs
  classes := hc

lemma flatten_map_single {β : Type*} {f : β → List α} {l : List β} {k : β} (hnd : l.Nodup)
    (hk : k ∈ l) (h : ∀ p ∈ l, p ≠ k → f p = []) : (l.map f).flatten = f k := by
  induction l with
  | nil => simp at hk
  | cons b l ih =>
      obtain ⟨hb, hnd'⟩ := List.nodup_cons.mp hnd
      rcases List.mem_cons.mp hk with rfl | hk'
      · have hnil : (l.map f).flatten = [] := by
          rw [List.flatten_eq_nil_iff]
          intro c hc
          obtain ⟨p, hp, rfl⟩ := List.mem_map.mp hc
          exact h p (by simp [hp]) (fun he => hb (he ▸ hp))
        simp [hnil]
      · have hfb : f b = [] := h b (by simp) (fun he => hb (he ▸ hk'))
        simp [hfb, ih hnd' hk' (fun p hp => h p (by simp [hp]))]

/-- The part of every list that goes to target `p`, concatenated. -/
def bucket (target : α → ℕ) (lists : List (List α)) (p : ℕ) : List α :=
  (lists.map (fun l => l.filter (fun a => decide (target a = p)))).flatten

lemma mem_bucket {target : α → ℕ} {lists : List (List α)} {p : ℕ} {a : α} :
    a ∈ bucket target lists p ↔ a ∈ lists.flatten ∧ target a = p := by
  simp only [bucket, List.mem_flatten, List.mem_map]
  constructor
  · rintro ⟨_, ⟨l, hl, rfl⟩, ha⟩
    obtain ⟨hal, ht⟩ := List.mem_filter.mp ha
    exact ⟨⟨l, hl, hal⟩, by simpa using ht⟩
  · rintro ⟨⟨l, hl, hal⟩, ht⟩
    exact ⟨_, ⟨l, hl, rfl⟩, List.mem_filter.mpr ⟨hal, by simpa using ht⟩⟩

/-- Local sorts do not change the classes of a bucket all of whose elements go there. -/
lemma bucket_class {sources locals : List (List α)} {target : α → ℕ} {p : ℕ} {x : α} {P : α → Prop}
    (h : TotalPreorderOn le P) (hP : ∀ s ∈ sources, ∀ a ∈ s, P a) (hx : P x)
    (hlocal : List.Forall₂ (IsStableSort le) sources locals)
    (ht : ∀ s ∈ sources, ∀ a ∈ s, eqv le x a = true → target a = p) :
    (bucket target locals p).filter (eqv le x) = sources.flatten.filter (eqv le x) := by
  induction hlocal with
  | nil => rfl
  | @cons s l sources locals hl _ ih =>
      have hrest := ih (fun s hs => hP s (by simp [hs])) (fun s hs => ht s (by simp [hs]))
      have hhead : (l.filter (fun a => decide (target a = p))).filter (eqv le x) =
          s.filter (eqv le x) := by
        rw [← hl.classes' h (hP s (by simp)) hx, List.filter_filter]
        refine List.filter_congr (fun a ha => ?_)
        cases hxa : eqv le x a with
        | false => rfl
        | true => simp [ht s (by simp) a (hl.mem_iff.mp ha) hxa]
      rw [bucket, List.map_cons, List.flatten_cons, List.filter_append, hhead, List.flatten_cons,
        List.filter_append, ← hrest]
      rfl

lemma locals_perm {sources locals : List (List α)}
    (hlocal : List.Forall₂ (IsStableSort le) sources locals) :
    locals.flatten.Perm sources.flatten := by
  induction hlocal with
  | nil => exact List.Perm.refl _
  | cons hl _ ih => exact hl.perm.append ih

/-- Sorted sources, dealt to targets by a monotone function and sorted again at
each target, read in target order: the stable sort of everything. -/
theorem IsStableSort.of_targets {sources locals : List (List α)} {target : α → ℕ} {n : ℕ}
    {final : ℕ → List α} (h : TotalPreorderOn le (· ∈ sources.flatten))
    (hlocal : List.Forall₂ (IsStableSort le) sources locals)
    (hmono : ∀ a ∈ sources.flatten, ∀ b ∈ sources.flatten, le a b = true → target a ≤ target b)
    (hlt : ∀ a ∈ sources.flatten, target a < n)
    (hfinal : ∀ p < n, IsStableSort le (bucket target locals p) (final p)) :
    IsStableSort le sources.flatten ((List.range n).map final).flatten := by
  have hbucket : ∀ p < n, ∀ a, a ∈ final p ↔ a ∈ sources.flatten ∧ target a = p := by
    intro p hp a
    rw [(hfinal p hp).mem_iff, mem_bucket, (locals_perm hlocal).mem_iff]
  refine IsStableSort.of_classes h ?_ ?_ ?_
  · intro a ha
    obtain ⟨l, hl, hal⟩ := List.mem_flatten.mp ha
    obtain ⟨p, hp, rfl⟩ := List.mem_map.mp hl
    exact ((hbucket p (List.mem_range.mp hp) a).mp hal).1
  · rw [List.pairwise_flatten, List.pairwise_map]
    refine ⟨?_, ?_⟩
    · intro l hl
      obtain ⟨p, hp, rfl⟩ := List.mem_map.mp hl
      exact (hfinal p (List.mem_range.mp hp)).sorted
    · refine List.pairwise_lt_range.imp_of_mem ?_
      intro p q hp hq hpq a ha b hb
      obtain ⟨ham, hta⟩ := (hbucket p (List.mem_range.mp hp) a).mp ha
      obtain ⟨hbm, htb⟩ := (hbucket q (List.mem_range.mp hq) b).mp hb
      refine (h.total a b ham hbm).resolve_right (fun hba => ?_)
      have := hmono b hbm a ham hba
      omega
  · intro x hx
    have htx := hlt x hx
    have hsame : ∀ a ∈ sources.flatten, eqv le x a = true → target a = target x := by
      intro a ha hxa
      simp only [eqv, Bool.and_eq_true] at hxa
      exact le_antisymm (hmono a ha x hx hxa.2) (hmono x hx a ha hxa.1)
    have hother : ∀ p ∈ List.range n, p ≠ target x → (final p).filter (eqv le x) = [] := by
      intro p hp hne
      rw [List.filter_eq_nil_iff]
      intro a ha hxa
      obtain ⟨hm, ht⟩ := (hbucket p (List.mem_range.mp hp) a).mp ha
      exact hne (ht ▸ hsame a hm hxa)
    have hone : ((List.range n).map final).flatten.filter (eqv le x) =
        (final (target x)).filter (eqv le x) := by
      rw [List.filter_flatten, List.map_map]
      exact flatten_map_single List.nodup_range (List.mem_range.mpr htx) hother
    have hmem : ∀ a ∈ bucket target locals (target x), a ∈ sources.flatten := by
      intro a ha
      exact ((hbucket _ htx a).mp ((hfinal _ htx).mem_iff.mpr ha)).1
    rw [hone, (hfinal _ htx).classes' h hmem hx]
    exact bucket_class h (fun s hs a ha => List.mem_flatten_of_mem hs ha) hx hlocal
      (fun s hs a ha => hsame a (List.mem_flatten_of_mem hs ha))

end Ranges

end StableSort
