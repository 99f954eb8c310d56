import Mathlib.Data.List.Basic
import Mathlib.Data.List.Nodup
import Mathlib.Data.List.Pairwise

/-!
# Insertion-ordered dictionaries

Entries keep the order in which their keys were first inserted. Writing to a
key that is already present replaces the value, keeps the position, and keeps
the key object stored first: with a key equality coarser than identity the
old key survives. Keys are compared with `==`, which need not be lawful.
-/
namespace OrderedDict

variable {K V : Type*}

/-- Replace the value at the first matching key, or append a new entry. -/
def setItems [BEq K] (k : K) (v : V) : List (K × V) → List (K × V)
  | [] => [(k, v)]
  | p :: ps => if p.1 == k then (p.1, v) :: ps else p :: setItems k v ps

/-- First entry whose stored key equals `k`. -/
def findItem [BEq K] (k : K) (items : List (K × V)) : Option (K × V) :=
  items.find? (fun p => p.1 == k)

lemma setItems_keys [BEq K] (k : K) (v : V) (items : List (K × V)) :
    (setItems k v items).map Prod.fst =
      if items.any (fun p => p.1 == k) then items.map Prod.fst
      else items.map Prod.fst ++ [k] := by
  induction items with
  | nil => rfl
  | cons p ps ih =>
      by_cases h : (p.1 == k) = true
      · simp [setItems, h]
      · by_cases ha : ps.any (fun p => p.1 == k) = true
        · rw [if_pos ha] at ih
          simp [setItems, h, ha, ih]
        · rw [if_neg ha] at ih
          simp [setItems, h, ha, ih]

lemma setItems_of_absent [BEq K] (k : K) (v : V) (items : List (K × V))
    (h : ∀ p ∈ items, (p.1 == k) = false) : setItems k v items = items ++ [(k, v)] := by
  induction items with
  | nil => rfl
  | cons p ps ih =>
      have hp : (p.1 == k) = false := h p (by simp)
      have hps := ih (fun q hq => h q (by simp [hq]))
      simp [setItems, hp, hps]

/-- A write appends an entry, or replaces the value of the one with an equal key. -/
lemma setItems_cases [BEq K] (k : K) (v : V) (items : List (K × V)) :
    (findItem k items = none ∧ setItems k v items = items ++ [(k, v)]) ∨
      ∃ pre p post, items = pre ++ p :: post ∧ (p.1 == k) = true ∧ findItem k items = some p ∧
        setItems k v items = pre ++ (p.1, v) :: post := by
  induction items with
  | nil => exact Or.inl ⟨rfl, rfl⟩
  | cons q qs ih =>
      cases hq : q.1 == k with
      | true => exact Or.inr ⟨[], q, qs, rfl, hq, by simp [findItem, hq], by simp [setItems, hq]⟩
      | false =>
          obtain ⟨hnone, hset⟩ | ⟨pre, p, post, rfl, hp, hfind, hset⟩ := ih
          · exact Or.inl ⟨by simpa [findItem, hq] using hnone, by simp [setItems, hq, hset]⟩
          · exact Or.inr ⟨q :: pre, p, post, rfl, hp, by simpa [findItem, hq] using hfind,
              by simp [setItems, hq, hset]⟩

/-- A write replaces one value or appends one entry. -/
lemma setItems_forall [BEq K] {P : K → Prop} {Q : V → Prop} {k : K} {v : V} {items : List (K × V)}
    (hi : ∀ p ∈ items, P p.1 ∧ Q p.2) (hk : P k) (hv : Q v) :
    ∀ p ∈ setItems k v items, P p.1 ∧ Q p.2 := by
  induction items with
  | nil => simpa [setItems] using ⟨hk, hv⟩
  | cons q qs ih =>
      have hq := hi q (by simp)
      have hqs := ih (fun p hp => hi p (by simp [hp]))
      rw [setItems]
      split
      · exact List.forall_mem_cons.mpr ⟨⟨hq.1, hv⟩, fun p hp => hi p (by simp [hp])⟩
      · exact List.forall_mem_cons.mpr ⟨hq, hqs⟩

end OrderedDict

/-- A dictionary: no two stored keys are equal, so a lookup is unambiguous. -/
structure OrderedDict (K V : Type*) [BEq K] where
  items : List (K × V)
  distinct : (items.map Prod.fst).Pairwise (fun a b => (a == b) = false)

namespace OrderedDict

variable {K V : Type*} [BEq K]

@[ext] theorem ext {d e : OrderedDict K V} (h : d.items = e.items) : d = e := by
  cases d; cases e; cases h; rfl

instance [DecidableEq K] [DecidableEq V] : DecidableEq (OrderedDict K V) := fun d e =>
  decidable_of_iff (d.items = e.items) ⟨ext, fun h => by rw [h]⟩

def empty : OrderedDict K V := ⟨[], by simp⟩

def keys (d : OrderedDict K V) : List K := d.items.map Prod.fst

def get? (d : OrderedDict K V) (k : K) : Option V := (findItem k d.items).map Prod.snd

def contains (d : OrderedDict K V) (k : K) : Bool := d.items.any (fun p => p.1 == k)

/-- `d[k] = v`. -/
def set (d : OrderedDict K V) (k : K) (v : V) : OrderedDict K V where
  items := setItems k v d.items
  distinct := by
    rw [setItems_keys]
    split
    · exact d.distinct
    · rename_i h
      simp only [Bool.not_eq_true, List.any_eq_false] at h
      rw [List.pairwise_append]
      refine ⟨d.distinct, by simp, ?_⟩
      intro a ha b hb
      obtain ⟨p, hp, rfl⟩ := List.mem_map.mp ha
      rw [List.mem_singleton.mp hb]
      simpa using h p hp

/-- `dict(pairs)`: successive writes from left to right. -/
def ofList (pairs : List (K × V)) : OrderedDict K V :=
  pairs.foldl (fun d p => d.set p.1 p.2) empty

@[simp] theorem items_empty : (empty : OrderedDict K V).items = [] := rfl

@[simp] theorem items_set (d : OrderedDict K V) (k : K) (v : V) :
    (d.set k v).items = setItems k v d.items := rfl

@[simp] theorem get?_empty (k : K) : (empty : OrderedDict K V).get? k = none := rfl

theorem keys_set (d : OrderedDict K V) (k : K) (v : V) :
    (d.set k v).keys = if d.contains k then d.keys else d.keys ++ [k] :=
  setItems_keys k v d.items

theorem get?_isSome (d : OrderedDict K V) (k : K) : (d.get? k).isSome = d.contains k := by
  simp only [get?, findItem, contains, Option.isSome_map]
  exact List.isSome_find?

theorem contains_iff (d : OrderedDict K V) (k : K) :
    d.contains k = true ↔ ∃ a ∈ d.keys, (a == k) = true := by
  simp only [contains, keys, List.any_eq_true, List.mem_map]
  constructor
  · rintro ⟨p, hp, hk⟩
    exact ⟨p.1, ⟨p, hp, rfl⟩, hk⟩
  · rintro ⟨_, ⟨p, hp, rfl⟩, hk⟩
    exact ⟨p, hp, hk⟩

lemma foldl_set_items_of_fresh (pairs : List (K × V)) (d : OrderedDict K V)
    (h : (d.keys ++ pairs.map Prod.fst).Pairwise (fun a b => (a == b) = false)) :
    (pairs.foldl (fun d p => d.set p.1 p.2) d).items = d.items ++ pairs := by
  induction pairs generalizing d with
  | nil => simp
  | cons p ps ih =>
      have habs : ∀ q ∈ d.items, (q.1 == p.1) = false := by
        intro q hq
        have hp := (List.pairwise_append.mp h).2.2
        exact hp q.1 (List.mem_map_of_mem hq) p.1 (by simp)
      have hset : (d.set p.1 p.2).items = d.items ++ [p] := setItems_of_absent _ _ _ habs
      have hkeys : (d.set p.1 p.2).keys = d.keys ++ [p.1] := by
        rw [keys, hset, List.map_append]
        rfl
      rw [List.foldl_cons, ih _ (by simpa [hkeys] using h), hset]
      simp

/-- With pairwise different keys the entries are the given pairs in order. -/
theorem items_ofList (pairs : List (K × V))
    (h : (pairs.map Prod.fst).Pairwise (fun a b => (a == b) = false)) :
    (ofList pairs).items = pairs := by
  simpa [ofList, keys] using foldl_set_items_of_fresh pairs empty (by simpa [keys] using h)

/-- On the keys satisfying `P`, the comparison `==` is identity. -/
def LawfulOn (P : K → Prop) : Prop := ∀ a b, P a → P b → ((a == b) = true ↔ a = b)

/-- Every stored key satisfies `P`. -/
def KeysIn (P : K → Prop) (d : OrderedDict K V) : Prop := ∀ k ∈ d.keys, P k

section Lawful

variable {P : K → Prop} (hP : LawfulOn P)
include hP

theorem keys_nodup (d : OrderedDict K V) (hd : d.KeysIn P) : d.keys.Nodup := by
  refine List.Pairwise.imp_of_mem ?_ d.distinct
  intro a b ha hb hab he
  subst he
  rw [(hP a a (hd a ha) (hd a ha)).mpr rfl] at hab
  exact absurd hab (by simp)

end Lawful

theorem KeysIn.empty {P : K → Prop} : (empty : OrderedDict K V).KeysIn P := by
  simp [KeysIn, keys]

theorem KeysIn.set {P : K → Prop} {d : OrderedDict K V} (hd : d.KeysIn P) {k : K} (hk : P k)
    (v : V) : (d.set k v).KeysIn P := by
  intro a ha
  rw [keys_set] at ha
  split at ha
  · exact hd a ha
  · rcases List.mem_append.mp ha with h | h
    · exact hd a h
    · rwa [List.mem_singleton.mp h]

/-- A write keeps what holds of every value. -/
theorem set_values {Q : V → Prop} {d : OrderedDict K V} (hd : ∀ p ∈ d.items, Q p.2) {k : K} {v : V}
    (hv : Q v) : ∀ p ∈ (d.set k v).items, Q p.2 := fun p hp =>
  (setItems_forall (P := fun _ => True) (fun q hq => ⟨trivial, hd q hq⟩) trivial hv p hp).2

theorem ofList_values {Q : V → Prop} {pairs : List (K × V)} (h : ∀ p ∈ pairs, Q p.2) :
    ∀ p ∈ (ofList pairs).items, Q p.2 :=
  List.foldlRecOn pairs _ (motive := fun d : OrderedDict K V => ∀ p ∈ d.items, Q p.2) (by simp)
    (fun _ hd p hp => set_values hd (h p hp))

section PartialEquiv

variable [PartialEquivBEq K]

instance instPartialEquivBEqList : PartialEquivBEq (List K) where
  symm := by
    intro as bs h
    induction as generalizing bs with
    | nil => cases bs <;> simp_all
    | cons a as ih =>
        cases bs with
        | nil => simp at h
        | cons b bs =>
            simp only [List.cons_beq_cons, Bool.and_eq_true] at h ⊢
            exact ⟨BEq.symm h.1, ih h.2⟩
  trans := by
    intro as bs cs hab hbc
    induction as generalizing bs cs with
    | nil => cases bs <;> simp_all
    | cons a as ih =>
        cases bs with
        | nil => simp at hab
        | cons b bs =>
            cases cs with
            | nil => simp at hbc
            | cons c cs =>
                simp only [List.cons_beq_cons, Bool.and_eq_true] at hab hbc ⊢
                exact ⟨BEq.trans hab.1 hbc.1, ih hab.2 hbc.2⟩

lemma beq_congr_right {a b c : K} (h : (b == c) = true) : (a == b) = (a == c) := by
  rw [Bool.eq_iff_iff]
  exact ⟨fun hab => BEq.trans hab h, fun hac => BEq.trans hac (BEq.symm h)⟩

theorem findItem_congr {k k' : K} (h : (k == k') = true) (items : List (K × V)) :
    findItem k items = findItem k' items := by
  simp only [findItem, beq_congr_right h]

/-- A lookup does not distinguish equal keys. -/
theorem get?_congr {k k' : K} (h : (k == k') = true) (d : OrderedDict K V) :
    d.get? k = d.get? k' := by rw [get?, get?, findItem_congr h]

lemma findItem_setItems (k k' : K) (v : V) (items : List (K × V)) :
    (findItem k' (setItems k v items)).map Prod.snd =
      if k == k' then some v else (findItem k' items).map Prod.snd := by
  induction items with
  | nil => cases h : k == k' <;> simp [setItems, findItem, h]
  | cons p ps ih =>
      cases hp : p.1 == k with
      | true =>
          have hk : (p.1 == k') = (k == k') := by
            rw [Bool.eq_iff_iff]
            exact ⟨fun h => BEq.trans (BEq.symm hp) h, fun h => BEq.trans hp h⟩
          cases h : k == k' <;> simp [setItems, findItem, hp, hk, h]
      | false =>
          cases h' : p.1 == k' with
          | true =>
              have hk : (k == k') = false := by
                rw [Bool.eq_false_iff]
                intro h
                rw [BEq.trans h' (BEq.symm h)] at hp
                cases hp
              simp [setItems, findItem, hp, h', hk]
          | false => simpa [setItems, findItem, hp, h'] using ih

/-- What a lookup finds after a write. -/
theorem get?_set (d : OrderedDict K V) (k k' : K) (v : V) :
    (d.set k v).get? k' = if k == k' then some v else d.get? k' :=
  findItem_setItems k k' v d.items

end PartialEquiv

section LawfulKeys

variable [LawfulBEq K]

theorem distinct_keys_iff {keys : List K} :
    keys.Pairwise (fun a b => (a == b) = false) ↔ keys.Nodup := by
  simp only [beq_eq_false_iff_ne]
  exact Iff.rfl

/-- A lookup finds exactly the stored entry. -/
theorem get?_eq_some_iff {d : OrderedDict K V} {k : K} {v : V} :
    d.get? k = some v ↔ (k, v) ∈ d.items := by
  have hnd := distinct_keys_iff.mp d.distinct
  simp only [get?, findItem, Option.map_eq_some_iff]
  constructor
  · rintro ⟨⟨k', v'⟩, hf, rfl⟩
    have hk : k' = k := by simpa using List.find?_some hf
    exact hk ▸ List.mem_of_find?_eq_some hf
  · intro hmem
    have hsome : (d.items.find? (fun p => p.1 == k)).isSome := by
      rw [List.find?_isSome]
      exact ⟨(k, v), hmem, by simp⟩
    obtain ⟨⟨k', v'⟩, hf⟩ := Option.isSome_iff_exists.mp hsome
    have hk : k' = k := by simpa using List.find?_some hf
    have hv := List.inj_on_of_nodup_map hnd (List.mem_of_find?_eq_some hf) hmem hk
    exact ⟨(k', v'), hf, (Prod.mk.inj hv).2⟩

/-- The entries of one key: at most the one a lookup finds. -/
theorem filter_key (d : OrderedDict K V) (k : K) :
    d.items.filter (fun p => p.1 == k) = ((d.get? k).map (fun v => (k, v))).toList := by
  have hnd := distinct_keys_iff.mp d.distinct
  rw [get?, findItem, Option.map_map]
  generalize d.items = items at hnd
  induction items with
  | nil => rfl
  | cons p items ih =>
      rw [List.map_cons, List.nodup_cons] at hnd
      rw [List.filter_cons, List.find?_cons]
      cases hp : p.1 == k with
      | false => exact ih hnd.2
      | true =>
          obtain ⟨k', v⟩ := p
          obtain rfl := eq_of_beq hp
          have hrest : items.filter (fun q => q.1 == k') = [] := by
            rw [List.filter_eq_nil_iff]
            intro q hq hqk
            have hmem : q.1 ∈ items.map Prod.fst := List.mem_map_of_mem hq
            exact hnd.1 (by rwa [eq_of_beq hqk] at hmem)
          rw [if_pos rfl, hrest]
          rfl

/-- Entries with pairwise different keys are found under their keys. -/
theorem get?_ofList_of_mem {pairs : List (K × V)} (hnd : (pairs.map Prod.fst).Nodup) {k : K} {v : V}
    (h : (k, v) ∈ pairs) : (ofList pairs).get? k = some v := by
  rw [get?_eq_some_iff, items_ofList pairs (distinct_keys_iff.mpr hnd)]
  exact h

/-- A lookup after writing entries with different keys: the new entry, else the old one. -/
theorem get?_foldl_set {pairs : List (K × V)} (hnd : (pairs.map Prod.fst).Nodup)
    (d : OrderedDict K V) (k : K) :
    (pairs.foldl (fun d p => d.set p.1 p.2) d).get? k =
      ((findItem k pairs).map Prod.snd).or (d.get? k) := by
  induction pairs generalizing d with
  | nil => rfl
  | cons p ps ih =>
      rw [List.map_cons, List.nodup_cons] at hnd
      rw [List.foldl_cons, ih hnd.2, get?_set]
      cases hk : p.1 == k with
      | false => simp [findItem, hk]
      | true =>
          have habs : ps.find? (fun p => p.1 == k) = none := by
            rw [List.find?_eq_none]
            intro q hq hqk
            have he : q.1 = p.1 := (eq_of_beq hqk).trans (eq_of_beq hk).symm
            exact hnd.1 (he ▸ List.mem_map_of_mem hq)
          simp [habs, findItem, hk]

/-- An entry that was written is found. -/
theorem get?_foldl_set_of_mem {pairs : List (K × V)} (hnd : (pairs.map Prod.fst).Nodup)
    (d : OrderedDict K V) {k : K} {v : V} (h : (k, v) ∈ pairs) :
    (pairs.foldl (fun d p => d.set p.1 p.2) d).get? k = some v := by
  have hfind : (findItem k pairs).map Prod.snd = some v := by
    have := get?_ofList_of_mem hnd h
    rwa [get?, items_ofList pairs (distinct_keys_iff.mpr hnd)] at this
  rw [get?_foldl_set hnd, hfind]
  rfl

/-- Entries under other keys leave a lookup as it was. -/
theorem get?_foldl_set_of_notMem {pairs : List (K × V)} (d : OrderedDict K V) {k : K}
    (h : k ∉ pairs.map Prod.fst) : (pairs.foldl (fun d p => d.set p.1 p.2) d).get? k = d.get? k := by
  induction pairs generalizing d with
  | nil => rfl
  | cons p pairs ih =>
      rw [List.map_cons, List.mem_cons, not_or] at h
      rw [List.foldl_cons, ih _ h.2, get?_set]
      exact if_neg (fun he => h.1 (eq_of_beq he).symm)

theorem isSome_get?_iff {d : OrderedDict K V} {k : K} : (d.get? k).isSome = true ↔ k ∈ d.keys := by
  rw [get?_isSome, contains_iff]
  constructor
  · rintro ⟨a, ha, hk⟩
    exact eq_of_beq hk ▸ ha
  · exact fun h => ⟨k, h, by simp⟩

theorem keys_ofList {pairs : List (K × V)} (hnd : (pairs.map Prod.fst).Nodup) :
    (ofList pairs).keys = pairs.map Prod.fst := by
  rw [keys, items_ofList pairs (distinct_keys_iff.mpr hnd)]

theorem mem_keys_foldl_set {pairs : List (K × V)} {d : OrderedDict K V} {k : K} :
    k ∈ (pairs.foldl (fun d p => d.set p.1 p.2) d).keys ↔ k ∈ d.keys ∨ k ∈ pairs.map Prod.fst := by
  induction pairs generalizing d with
  | nil => simp
  | cons p ps ih =>
      have hset : k ∈ (d.set p.1 p.2).keys ↔ k ∈ d.keys ∨ k = p.1 := by
        rw [← isSome_get?_iff, get?_set, ← isSome_get?_iff]
        by_cases h : p.1 = k
        · simp [h]
        · simp [h, Ne.symm h]
      rw [List.foldl_cons, ih, hset, List.map_cons, List.mem_cons, or_assoc]

end LawfulKeys

end OrderedDict
