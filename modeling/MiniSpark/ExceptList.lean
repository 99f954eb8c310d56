import Mathlib.Data.List.Forall2
import Mathlib.Data.List.Perm.Basic

/-!
# List traversals that may fail

Left-to-right traversals in `Except`: the first failure stops the traversal.
Each traversal has one lemma saying exactly when it succeeds and with what
result; the other lemmas follow the way lists are built.
-/
namespace ExceptList

variable {ε α β γ σ : Type}

@[simp] theorem bind_ok (a : α) (f : α → Except ε β) : (Except.ok a >>= f) = f a := rfl

@[simp] theorem bind_error (e : ε) (f : α → Except ε β) :
    ((Except.error e : Except ε α) >>= f) = Except.error e := rfl

theorem map_ok (f : α → β) (a : α) : f <$> (Except.ok a : Except ε α) = Except.ok (f a) := rfl

/-- Inversion of a successful sequence. -/
theorem bind_eq_ok {x : Except ε α} {f : α → Except ε β} {b : β} :
    (x >>= f) = Except.ok b ↔ ∃ a, x = Except.ok a ∧ f a = Except.ok b := by
  cases x with
  | error e => simp
  | ok a => simp

theorem bind_eq_error {x : Except ε α} {f : α → Except ε β} {e : ε} :
    x >>= f = Except.error e ↔ x = Except.error e ∨ ∃ a, x = Except.ok a ∧ f a = Except.error e := by
  cases x <;> simp

theorem map_eq_ok {x : Except ε α} {f : α → β} {b : β} :
    f <$> x = Except.ok b ↔ ∃ a, x = Except.ok a ∧ f a = b := by
  cases x with
  | error e => simp [Functor.map, Except.map]
  | ok a => simp [Functor.map, Except.map]

theorem toOption_eq_some {x : Except ε α} {a : α} : x.toOption = some a ↔ x = Except.ok a := by
  cases x <;> simp [Except.toOption]

@[simp] theorem pure_eq_ok (a : α) : (pure a : Except ε α) = Except.ok a := rfl

/-- A traversal succeeds exactly when every element does, element by element. -/
theorem mapM_eq_ok {f : α → Except ε β} {as : List α} {bs : List β} :
    as.mapM f = Except.ok bs ↔ List.Forall₂ (fun a b => f a = Except.ok b) as bs := by
  induction as generalizing bs with
  | nil => cases bs <;> simp [List.mapM_nil]
  | cons a as ih =>
      simp only [List.mapM_cons, bind_eq_ok, pure_eq_ok, Except.ok.injEq, ih]
      constructor
      · rintro ⟨b, hb, bs', hbs, rfl⟩
        exact List.Forall₂.cons hb hbs
      · rintro (_ | ⟨hb, hbs⟩)
        exact ⟨_, hb, _, hbs, rfl⟩

/-- Two traversals, one after the other, against one traversal. -/
theorem mapM_bind_eq_ok {f : α → Except ε β} {g : β → Except ε γ} {as : List α} {cs : List γ} :
    as.mapM (fun a => f a >>= g) = Except.ok cs ↔
      ∃ bs, as.mapM f = Except.ok bs ∧ bs.mapM g = Except.ok cs := by
  simp only [mapM_eq_ok]
  constructor
  · intro h
    induction h with
    | nil => exact ⟨[], .nil, .nil⟩
    | cons ha _ ih =>
        obtain ⟨b, hb, hc⟩ := bind_eq_ok.mp ha
        obtain ⟨bs, hbs, hcs⟩ := ih
        exact ⟨b :: bs, .cons hb hbs, .cons hc hcs⟩
  · rintro ⟨bs, hbs, hcs⟩
    induction hbs generalizing cs with
    | nil =>
        cases hcs
        exact .nil
    | cons hb _ ih =>
        cases hcs with
        | cons hc hcs => exact .cons (bind_eq_ok.mpr ⟨_, hb, hc⟩) (ih hcs)

theorem mapM_length {f : α → Except ε β} {as : List α} {bs : List β}
    (h : as.mapM f = Except.ok bs) : bs.length = as.length :=
  (mapM_eq_ok.mp h).length_eq.symm

theorem mapM_ok_of_forall {f : α → Except ε β} {g : α → β} {as : List α}
    (h : ∀ a ∈ as, f a = Except.ok (g a)) : as.mapM f = Except.ok (as.map g) := by
  induction as with
  | nil => rfl
  | cons a as ih =>
      have hrest := ih (fun b hb => h b (by simp [hb]))
      simp [List.mapM_cons, h a (by simp), hrest]

theorem mapM_ok_of_exists {S : α → β → Prop} {f : α → Except ε β} {as : List α}
    (h : ∀ a ∈ as, ∃ b, f a = Except.ok b ∧ S a b) :
    ∃ bs, as.mapM f = Except.ok bs ∧ List.Forall₂ S as bs := by
  induction as with
  | nil => exact ⟨[], rfl, List.Forall₂.nil⟩
  | cons a as ih =>
      obtain ⟨⟨b, hb, hs⟩, hrest⟩ := List.forall_mem_cons.mp h
      obtain ⟨bs, hbs, hss⟩ := ih hrest
      exact ⟨b :: bs, by simp [List.mapM_cons, hb, hbs], List.Forall₂.cons hs hss⟩

theorem mapM_congr {f g : α → Except ε β} {as : List α} (h : ∀ a ∈ as, f a = g a) :
    as.mapM f = as.mapM g := by
  induction as with
  | nil => rfl
  | cons a as ih =>
      rw [List.mapM_cons, List.mapM_cons, h a (by simp), ih (fun b hb => h b (by simp [hb]))]

/-- Every element of a successful traversal succeeds on its own. -/
theorem mapM_ok_mem {f : α → Except ε β} {as : List α} {bs : List β}
    (h : as.mapM f = Except.ok bs) {a : α} (ha : a ∈ as) : ∃ b ∈ bs, f a = Except.ok b := by
  induction mapM_eq_ok.mp h with
  | nil => simp at ha
  | @cons a' b' as' bs' hb hbs ih =>
      rcases List.mem_cons.mp ha with rfl | ha'
      · exact ⟨b', by simp, hb⟩
      · obtain ⟨b, hb, hf⟩ := ih (mapM_eq_ok.mpr hbs) ha'
        exact ⟨b, by simp [hb], hf⟩

/-- The error of a failed traversal is that of one of its elements. -/
theorem mapM_error {f : α → Except ε β} {as : List α} {e : ε}
    (h : as.mapM f = Except.error e) : ∃ a ∈ as, f a = Except.error e := by
  induction as with
  | nil => cases h
  | cons a as ih =>
      rw [List.mapM_cons] at h
      cases ha : f a with
      | error e' =>
          rw [ha] at h
          cases h
          exact ⟨a, by simp, ha⟩
      | ok b =>
          rw [ha, bind_ok] at h
          cases has : as.mapM f with
          | error e' =>
              rw [has] at h
              cases h
              obtain ⟨a', ha', hf⟩ := ih has
              exact ⟨a', by simp [ha'], hf⟩
          | ok bs =>
              rw [has] at h
              cases h

/-- Attaching a computed key to every element. -/
theorem mapM_keyed_eq_ok {f : α → Except ε β} {as : List α} {ps : List (β × α)} :
    as.mapM (fun a => f a >>= fun b => pure (b, a)) = Except.ok ps ↔
      ps.map Prod.snd = as ∧ ∀ p ∈ ps, f p.2 = Except.ok p.1 := by
  induction as generalizing ps with
  | nil => cases ps <;> simp [List.mapM_nil]
  | cons a as ih =>
      rw [List.mapM_cons]
      constructor
      · intro h
        obtain ⟨_, hp, h⟩ := bind_eq_ok.mp h
        obtain ⟨b, hb, hp⟩ := bind_eq_ok.mp hp
        obtain ⟨ps', hps, h⟩ := bind_eq_ok.mp h
        cases hp
        cases h
        obtain ⟨hsnd, hall⟩ := ih.mp hps
        exact ⟨by rw [List.map_cons, hsnd], List.forall_mem_cons.mpr ⟨hb, hall⟩⟩
      · rintro ⟨hsnd, hall⟩
        cases ps with
        | nil => cases hsnd
        | cons p ps =>
            obtain ⟨rfl, rfl⟩ := List.cons.inj hsnd
            obtain ⟨hp, hall⟩ := List.forall_mem_cons.mp hall
            rw [ih.mpr ⟨rfl, hall⟩, hp]
            rfl

/-- Keep the elements on which the test succeeds with `true`. -/
def filterE (p : α → Except ε Bool) : List α → Except ε (List α)
  | [] => .ok []
  | a :: as => do
      let keep ← p a
      let rest ← filterE p as
      pure (if keep then a :: rest else rest)

theorem filterE_ok_of_forall {p : α → Except ε Bool} {q : α → Bool} {as : List α}
    (h : ∀ a ∈ as, p a = Except.ok (q a)) : filterE p as = Except.ok (as.filter q) := by
  induction as with
  | nil => rfl
  | cons a as ih =>
      have hrest := ih (fun b hb => h b (by simp [hb]))
      simp only [filterE, h a (by simp), hrest, bind_ok, pure_eq_ok, List.filter_cons]

/-- A successful filter tested every element. -/
theorem filterE_ok_mem {p : α → Except ε Bool} {as bs : List α}
    (h : filterE p as = Except.ok bs) {a : α} (ha : a ∈ as) : ∃ b, p a = Except.ok b := by
  induction as generalizing bs with
  | nil => simp at ha
  | cons a' as ih =>
      simp only [filterE, bind_eq_ok] at h
      obtain ⟨b, hb, rest, hrest, _⟩ := h
      rcases List.mem_cons.mp ha with rfl | ha'
      · exact ⟨b, hb⟩
      · exact ih hrest ha'

/-- The verdict of a test, `false` where the test fails. -/
def verdict (p : α → Except ε Bool) (a : α) : Bool :=
  match p a with
  | .ok b => b
  | .error _ => false

theorem verdict_of_ok {p : α → Except ε Bool} {a : α} {b : Bool} (h : p a = Except.ok b) :
    verdict p a = b := by
  simp [verdict, h]

/-- A successful filter is the filter by the verdicts. -/
theorem filterE_eq_ok {p : α → Except ε Bool} {as bs : List α} :
    filterE p as = Except.ok bs ↔
      (∀ a ∈ as, ∃ b, p a = Except.ok b) ∧ bs = as.filter (verdict p) := by
  constructor
  · intro h
    have hall : ∀ a ∈ as, ∃ b, p a = Except.ok b := fun a ha => filterE_ok_mem h ha
    refine ⟨hall, ?_⟩
    have hv : ∀ a ∈ as, p a = Except.ok (verdict p a) := by
      intro a ha
      obtain ⟨b, hb⟩ := hall a ha
      rw [hb, verdict_of_ok hb]
    rw [filterE_ok_of_forall hv, Except.ok.injEq] at h
    exact h.symm
  · rintro ⟨hall, rfl⟩
    apply filterE_ok_of_forall
    intro a ha
    obtain ⟨b, hb⟩ := hall a ha
    rw [hb, verdict_of_ok hb]

/-- A filter that runs both tests on every element, against a filter after a filter: the two
agree exactly when the second test also succeeds on the elements the first one drops. -/
theorem filterE_chain_iff {p q both : α → Except ε Bool} {as kept bs : List α}
    (hboth : ∀ a, both a = p a >>= fun x => q a >>= fun y => pure (x && y))
    (hp : filterE p as = Except.ok kept) (hq : filterE q kept = Except.ok bs) :
    filterE both as = Except.ok bs ↔ ∀ a ∈ as, p a = Except.ok false → ∃ b, q a = Except.ok b := by
  obtain ⟨hpok, rfl⟩ := filterE_eq_ok.mp hp
  obtain ⟨hqok, rfl⟩ := filterE_eq_ok.mp hq
  rw [filterE_eq_ok]
  constructor
  · rintro ⟨hall, -⟩ a ha -
    obtain ⟨b, hb⟩ := hall a ha
    rw [hboth] at hb
    obtain ⟨x, -, hrest⟩ := bind_eq_ok.mp hb
    obtain ⟨y, hy, -⟩ := bind_eq_ok.mp hrest
    exact ⟨y, hy⟩
  · intro hdropped
    have hqall : ∀ a ∈ as, ∃ y, q a = Except.ok y := by
      intro a ha
      obtain ⟨x, hx⟩ := hpok a ha
      cases x with
      | false => exact hdropped a ha hx
      | true => exact hqok a (List.mem_filter.mpr ⟨ha, verdict_of_ok hx⟩)
    have hvalue : ∀ a ∈ as, ∃ x y, p a = Except.ok x ∧ q a = Except.ok y ∧
        both a = Except.ok (x && y) := by
      intro a ha
      obtain ⟨x, hx⟩ := hpok a ha
      obtain ⟨y, hy⟩ := hqall a ha
      exact ⟨x, y, hx, hy, by rw [hboth, hx, bind_ok, hy, bind_ok, pure_eq_ok]⟩
    refine ⟨fun a ha => ?_, ?_⟩
    · obtain ⟨x, y, -, -, hxy⟩ := hvalue a ha
      exact ⟨_, hxy⟩
    · rw [List.filter_filter]
      refine List.filter_congr (fun a ha => ?_)
      obtain ⟨x, y, hx, hy, hxy⟩ := hvalue a ha
      rw [verdict_of_ok hx, verdict_of_ok hy, verdict_of_ok hxy, Bool.and_comm]

section Rearranged

/-- A traversal of the same elements in another order. -/
theorem mapM_perm {f : α → Except ε β} {as bs : List α} {cs : List β} (h : as.Perm bs)
    (hmap : bs.mapM f = Except.ok cs) : ∃ ds, as.mapM f = Except.ok ds ∧ ds.Perm cs := by
  obtain ⟨ds, hds, hperm⟩ := List.perm_comp_forall₂ h (mapM_eq_ok.mp hmap)
  exact ⟨ds, mapM_eq_ok.mpr hds, hperm⟩

theorem filterE_perm {p : α → Except ε Bool} {as bs cs : List α} (h : as.Perm bs)
    (hfilter : filterE p bs = Except.ok cs) :
    ∃ ds, filterE p as = Except.ok ds ∧ ds.Perm cs := by
  obtain ⟨hall, rfl⟩ := filterE_eq_ok.mp hfilter
  exact ⟨_, filterE_eq_ok.mpr ⟨fun a ha => hall a (h.mem_iff.mp ha), rfl⟩, h.filter _⟩

/-- A traversal of a list that is cut into parts. -/
theorem mapM_flatten {f : α → Except ε β} {parts : List (List α)} {out : List β}
    (h : parts.flatten.mapM f = Except.ok out) :
    ∃ outs, parts.mapM (fun part => part.mapM f) = Except.ok outs ∧ outs.flatten = out := by
  induction parts generalizing out with
  | nil =>
      cases h
      exact ⟨[], rfl, rfl⟩
  | cons part parts ih =>
      rw [List.flatten_cons, List.mapM_append] at h
      obtain ⟨first, hfirst, h⟩ := bind_eq_ok.mp h
      obtain ⟨rest, hrest, h⟩ := bind_eq_ok.mp h
      cases h
      obtain ⟨outs, houts, rfl⟩ := ih hrest
      exact ⟨first :: outs, by rw [List.mapM_cons, hfirst, bind_ok, houts]; rfl, rfl⟩

theorem filterE_flatten {p : α → Except ε Bool} {parts : List (List α)} {out : List α}
    (h : filterE p parts.flatten = Except.ok out) :
    ∃ outs, parts.mapM (filterE p) = Except.ok outs ∧ outs.flatten = out := by
  obtain ⟨hall, rfl⟩ := filterE_eq_ok.mp h
  refine ⟨parts.map (List.filter (verdict p)), mapM_ok_of_forall (fun part hpart => ?_),
    List.filter_flatten.symm⟩
  exact filterE_eq_ok.mpr ⟨fun a ha => hall a (List.mem_flatten_of_mem hpart ha), rfl⟩

end Rearranged

section Related

variable {R : α → σ → Prop}

lemma forall₂_imp_of_mem {S : α → σ → Prop} {as : List α} {as' : List σ}
    (h : List.Forall₂ R as as') (himp : ∀ a ∈ as, ∀ a' ∈ as', R a a' → S a a') :
    List.Forall₂ S as as' := by
  induction h with
  | nil => exact List.Forall₂.nil
  | cons hr _ ih =>
      exact List.Forall₂.cons (himp _ (by simp) _ (by simp) hr)
        (ih (fun a ha a' ha' => himp a (by simp [ha]) a' (by simp [ha'])))

/-- Traversals of related lists. -/
theorem mapM_rel {S : β → γ → Prop} {f : α → Except ε β} {g : σ → Except ε γ} {as : List α}
    {as' : List σ} {bs : List β} (h : List.Forall₂ R as as')
    (hfg : ∀ a ∈ as, ∀ a', R a a' → ∀ b, f a = Except.ok b → ∃ b', g a' = Except.ok b' ∧ S b b')
    (hbs : as.mapM f = Except.ok bs) :
    ∃ bs', as'.mapM g = Except.ok bs' ∧ List.Forall₂ S bs bs' := by
  induction h generalizing bs with
  | nil => cases hbs; exact ⟨[], rfl, List.Forall₂.nil⟩
  | @cons a a' as as' hr hrest ih =>
      rw [List.mapM_cons] at hbs
      obtain ⟨b, hb, hbs⟩ := bind_eq_ok.mp hbs
      obtain ⟨rest, hrest, hbs⟩ := bind_eq_ok.mp hbs
      cases hbs
      obtain ⟨b', hb', hs⟩ := hfg a (by simp) a' hr b hb
      obtain ⟨bs', hbs', hss⟩ := ih (fun x hx => hfg x (by simp [hx])) hrest
      refine ⟨b' :: bs', ?_, List.Forall₂.cons hs hss⟩
      rw [mapM_eq_ok]
      exact List.Forall₂.cons hb' (mapM_eq_ok.mp hbs')

/-- Filters of related lists. -/
theorem filterE_rel {p : α → Except ε Bool} {q : σ → Except ε Bool} {as : List α} {as' : List σ}
    {bs : List α} (h : List.Forall₂ R as as')
    (hpq : ∀ a ∈ as, ∀ a', R a a' → ∀ t, p a = Except.ok t → q a' = Except.ok t)
    (hbs : filterE p as = Except.ok bs) :
    ∃ bs', filterE q as' = Except.ok bs' ∧ List.Forall₂ R bs bs' := by
  induction h generalizing bs with
  | nil => cases hbs; exact ⟨[], rfl, List.Forall₂.nil⟩
  | @cons a a' as as' hr hrest ih =>
      obtain ⟨t, ht, hbs⟩ := bind_eq_ok.mp hbs
      obtain ⟨rest, hrest, hbs⟩ := bind_eq_ok.mp hbs
      obtain ⟨rest', hrest', hrel⟩ := ih (fun x hx => hpq x (by simp [hx])) hrest
      cases hbs
      refine ⟨if t then a' :: rest' else rest', ?_, ?_⟩
      · simp only [filterE, hpq a (by simp) a' hr t ht, hrest', bind_ok, pure_eq_ok]
      · cases t with
        | true => exact List.Forall₂.cons hr hrel
        | false => exact hrel

/-- Folds of related lists through the same states. -/
theorem foldlM_rel {f : β → α → Except ε β} {g : β → σ → Except ε β} {as : List α} {as' : List σ}
    {s t : β} (h : List.Forall₂ R as as')
    (hfg : ∀ a ∈ as, ∀ a', R a a' → ∀ s t, f s a = Except.ok t → g s a' = Except.ok t)
    (ht : as.foldlM f s = Except.ok t) : as'.foldlM g s = Except.ok t := by
  induction h generalizing s with
  | nil => exact ht
  | @cons a a' as as' hr hrest ih =>
      rw [List.foldlM_cons] at ht ⊢
      obtain ⟨u, hu, ht⟩ := bind_eq_ok.mp ht
      rw [hfg a (by simp) a' hr s u hu]
      exact ih (fun x hx => hfg x (by simp [hx])) ht

end Related

/-- Two filters that keep equal images keep the same elements. -/
lemma filter_map_eq_iff {g : α → β} {c : α → Bool} {d : β → Bool} {xs : List α} :
    (xs.filter c).map g = (xs.map g).filter d ↔ ∀ x ∈ xs, c x = d (g x) := by
  constructor
  · intro h x hx
    have himp : ∀ y ∈ xs, c y = true → d (g y) = true := by
      intro y hy hc
      have hmem : g y ∈ (xs.map g).filter d := by
        rw [← h]
        exact List.mem_map_of_mem (List.mem_filter.mpr ⟨hy, hc⟩)
      exact (List.mem_filter.mp hmem).2
    -- `c` is the stronger test and keeps as many, so it rejects nothing `d` accepts.
    have hsub : xs.filter c = (xs.filter (d ∘ g)).filter c := by
      rw [List.filter_filter]
      refine List.filter_congr (fun y hy => ?_)
      cases hc : c y with
      | false => rfl
      | true => simp [himp y hy hc]
    have hlen := congrArg List.length h
    rw [List.length_map, List.filter_map, List.length_map, hsub] at hlen
    have hall := List.length_filter_eq_length_iff.mp hlen
    cases hd : d (g x) with
    | true => exact hall x (List.mem_filter.mpr ⟨hx, hd⟩)
    | false =>
        cases hc : c x with
        | false => rfl
        | true => rw [himp x hx hc] at hd; cases hd
  · intro h
    rw [List.filter_map]
    exact congrArg (List.map g) (List.filter_congr h)

/-- Filtering before a traversal gives what filtering after it gives exactly when
the two tests agree on every element and its image. -/
theorem filterE_mapM_eq_ok_iff {f : α → Except ε β} {p : α → Except ε Bool}
    {q : β → Except ε Bool} {as : List α} {bs cs : List β} (hf : as.mapM f = Except.ok bs)
    (hq : filterE q bs = Except.ok cs) :
    (filterE p as >>= fun kept => kept.mapM f) = Except.ok cs ↔
      ∀ a ∈ as, ∀ b, f a = Except.ok b → ∃ t, p a = Except.ok t ∧ q b = Except.ok t := by
  obtain ⟨hqok, rfl⟩ := filterE_eq_ok.mp hq
  have hrel := mapM_eq_ok.mp hf
  obtain ⟨hlen, hpair⟩ := List.forall₂_iff_zip.mp hrel
  have has : (as.zip bs).map Prod.fst = as := List.map_fst_zip (Nat.le_of_eq hlen)
  have hbs : (as.zip bs).map Prod.snd = bs := List.map_snd_zip (Nat.le_of_eq hlen.symm)
  have hkept : (as.filter (verdict p)).mapM f =
      Except.ok (((as.zip bs).filter (verdict p ∘ Prod.fst)).map Prod.snd) := by
    conv_lhs => rw [← has, List.filter_map]
    rw [mapM_eq_ok, List.forall₂_map_left_iff, List.forall₂_map_right_iff, List.forall₂_same]
    exact fun x hx => hpair (List.mem_of_mem_filter hx)
  have hverdict : ∀ x ∈ as.zip bs, q x.2 = Except.ok (verdict q x.2) := by
    intro x hx
    obtain ⟨t, ht⟩ := hqok x.2 (List.of_mem_zip hx).2
    rw [ht, verdict_of_ok ht]
  have hsame : (((as.zip bs).filter (verdict p ∘ Prod.fst)).map Prod.snd = bs.filter (verdict q)) ↔
      ∀ x ∈ as.zip bs, verdict p x.1 = verdict q x.2 := by
    conv_lhs => rhs; rw [← hbs]
    exact filter_map_eq_iff
  have hmem : ∀ a ∈ as, ∃ b, (a, b) ∈ as.zip bs := by
    intro a ha
    rw [← has] at ha
    obtain ⟨⟨a', b⟩, hx, rfl⟩ := List.mem_map.mp ha
    exact ⟨b, hx⟩
  constructor
  · intro h a ha b hb
    obtain ⟨kept, hk, hm⟩ := bind_eq_ok.mp h
    obtain ⟨hpok, rfl⟩ := filterE_eq_ok.mp hk
    rw [hkept, Except.ok.injEq, hsame] at hm
    obtain ⟨b', hx⟩ := hmem a ha
    obtain rfl : b' = b := Except.ok.inj ((hpair hx).symm.trans hb)
    obtain ⟨t, ht⟩ := hpok a ha
    refine ⟨t, ht, ?_⟩
    rw [hverdict _ hx, ← hm _ hx]
    exact congrArg Except.ok (verdict_of_ok ht)
  · intro h
    have hpok : ∀ a ∈ as, ∃ t, p a = Except.ok t := by
      intro a ha
      obtain ⟨b, hx⟩ := hmem a ha
      obtain ⟨t, ht, _⟩ := h a ha b (hpair hx)
      exact ⟨t, ht⟩
    rw [filterE_eq_ok.mpr ⟨hpok, rfl⟩, bind_ok, hkept, Except.ok.injEq, hsame]
    intro x hx
    obtain ⟨t, ht, ht'⟩ := h x.1 (List.of_mem_zip hx).1 x.2 (hpair hx)
    rw [verdict_of_ok ht, verdict_of_ok ht']

section Failing

/-- A computation that raises, or has the outcome of another. -/
def FailsOr (x y : Except ε α) : Prop := (∃ e, x = Except.error e) ∨ x = y

theorem FailsOr.refl (x : Except ε α) : FailsOr x x := Or.inr rfl

theorem FailsOr.ok {x y : Except ε α} (h : FailsOr x y) {a : α} (ha : x = Except.ok a) :
    y = Except.ok a := by
  obtain ⟨e, he⟩ | he := h
  · rw [he] at ha
    cases ha
  · rw [← he, ha]

theorem FailsOr.bind {x y : Except ε α} {f g : α → Except ε β} (h : FailsOr x y)
    (hfg : ∀ a, y = Except.ok a → FailsOr (f a) (g a)) : FailsOr (x >>= f) (y >>= g) := by
  obtain ⟨e, rfl⟩ | rfl := h
  · exact Or.inl ⟨e, rfl⟩
  · cases x with
    | error e => exact Or.inl ⟨e, rfl⟩
    | ok a => exact hfg a rfl

theorem FailsOr.mapM {f g : α → Except ε β} {as : List α} (h : ∀ a ∈ as, FailsOr (f a) (g a)) :
    FailsOr (as.mapM f) (as.mapM g) := by
  induction as with
  | nil => exact .refl _
  | cons a as ih =>
      rw [List.mapM_cons, List.mapM_cons]
      have hrest := ih (fun b hb => h b (List.mem_cons_of_mem _ hb))
      exact (h a List.mem_cons_self).bind (fun b _ => hrest.bind (fun bs _ => .refl _))

end Failing

end ExceptList
