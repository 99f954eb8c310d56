import MiniSpark.RowKeys

/-!
# Rows that agree on the names that matter

A rewritten plan may carry narrower rows. Two rows agree on a set of names when
they hold the same values under them; every operator maps agreeing inputs to
agreeing outputs as long as the names it reads are among them.
-/
namespace MiniSpark

variable {F : Type} [PyRuntime F]

section Agreement

omit [PyRuntime F]

/-- The rows hold the same values under the names satisfying `P`. -/
def Agree (P : String → Prop) (r r' : Record F) : Prop := ∀ n, P n → r'.get? n = r.get? n

/-- Row by row agreement. -/
abbrev AgreeRows (P : String → Prop) : List (Record F) → List (Record F) → Prop :=
  List.Forall₂ (Agree P)

theorem Agree.refl (P : String → Prop) (r : Record F) : Agree P r r := fun _ _ => rfl

theorem AgreeRows.refl (P : String → Prop) (rows : List (Record F)) : AgreeRows P rows rows :=
  List.forall₂_same.mpr (fun r _ => Agree.refl P r)

theorem Agree.trans {P : String → Prop} {r s t : Record F} (h : Agree P r s) (h' : Agree P s t) :
    Agree P r t := fun n hn => (h' n hn).trans (h n hn)

theorem AgreeRows.trans {P : String → Prop} {rows rows' rows'' : List (Record F)}
    (h : AgreeRows P rows rows') (h' : AgreeRows P rows' rows'') : AgreeRows P rows rows'' := by
  induction h generalizing rows'' with
  | nil => exact h'
  | cons hr _ ih =>
      obtain _ | ⟨hr', hrest⟩ := h'
      exact List.Forall₂.cons (hr.trans hr') (ih hrest)

theorem AgreeRows.mono {P Q : String → Prop} {rows rows' : List (Record F)}
    (h : AgreeRows P rows rows') (hQ : ∀ n, Q n → P n) : AgreeRows Q rows rows' :=
  List.Forall₂.imp (fun _ _ ha n hn => ha n (hQ n hn)) h

/-- The names satisfying `P` cover what an expression reads. -/
def Covers (P : String → Prop) (e : Expression F) : Prop := ∀ n ∈ e.referencedColumns, P n

end Agreement

/-- Evaluation does not distinguish rows that agree on what the expression reads. -/
theorem evaluate_of_agree {P : String → Prop} {e : Expression F} {r r' : Record F} {v : Value F}
    (hP : Covers P e) (h : Agree P r r') (hv : e.evaluate r = .ok v) : e.evaluate r' = .ok v :=
  Expression.evaluate_congr e (fun n hn => h n (hP n hn)) hv

theorem tupleKey_of_agree {P : String → Prop} {keys : List (Expression F)} {r r' : Record F}
    {k : List (Value F)} (hP : ∀ e ∈ keys, Covers P e) (h : Agree P r r')
    (hk : tupleKey keys r = .ok k) : tupleKey keys r' = .ok k := by
  unfold tupleKey at *
  rw [ExceptList.mapM_eq_ok] at *
  exact ExceptList.forall₂_imp_of_mem hk (fun e he v _ hv => evaluate_of_agree (hP e he) h hv)

section Rewrites

/-- The second expression has the truth value of the first wherever that evaluates. -/
def KeepsTruth (e e' : Expression F) : Prop :=
  ∀ r v, e.evaluate r = .ok v → ∃ v', e'.evaluate r = .ok v' ∧ v'.truthy = v.truthy

/-- The second expression has the value of the first wherever that evaluates. -/
def KeepsValue (e e' : Expression F) : Prop := ∀ r v, e.evaluate r = .ok v → e'.evaluate r = .ok v

theorem KeepsTruth.refl (e : Expression F) : KeepsTruth e e := fun _ v h => ⟨v, h, rfl⟩

theorem KeepsValue.refl (e : Expression F) : KeepsValue e e := fun _ _ h => h

theorem KeepsValue.keepsTruth {e e' : Expression F} (h : KeepsValue e e') : KeepsTruth e e' :=
  fun r v hv => ⟨v, h r v hv, rfl⟩

end Rewrites

section Operators

variable {P : String → Prop} {rows rows' out : List (Record F)}

theorem filterRows_agree {condition condition' : Expression F} (h : AgreeRows P rows rows')
    (hP : Covers P condition) (hk : KeepsTruth condition condition')
    (hout : filterRows condition rows = .ok out) :
    ∃ out', filterRows condition' rows' = .ok out' ∧ AgreeRows P out out' := by
  refine ExceptList.filterE_rel h (fun r _ r' hr t ht => ?_) hout
  obtain ⟨v, hv, rfl⟩ := ExceptList.map_eq_ok.mp ht
  obtain ⟨v', hv', htruth⟩ := hk r' v (evaluate_of_agree hP hr hv)
  exact ExceptList.map_eq_ok.mpr ⟨v', hv', htruth⟩

theorem projectRows_agree {names : List String} {columns columns' : List (Expression F)}
    (h : AgreeRows P rows rows') (hP : ∀ e ∈ columns, Covers P e)
    (hk : List.Forall₂ KeepsValue columns columns')
    (hout : projectRows names columns rows = .ok out) :
    projectRows names columns' rows' = .ok out := by
  have hrow : ∀ r ∈ rows, ∀ r', Agree P r r' → ∀ p, projectRow names columns r = .ok p →
      ∃ p', projectRow names columns' r' = .ok p' ∧ p = p' := by
    intro r _ r' hr p hp
    obtain ⟨values, hvalues, hp⟩ := ExceptList.bind_eq_ok.mp hp
    obtain ⟨values', hvalues', heq⟩ := ExceptList.mapM_rel (S := Eq) hk
      (fun e he e' hee v hv => ⟨v, hee r' v (evaluate_of_agree (hP e he) hr hv), rfl⟩) hvalues
    rw [List.forall₂_eq_eq_eq] at heq
    subst heq
    refine ⟨p, ?_, rfl⟩
    rw [projectRow, hvalues']
    exact hp
  obtain ⟨out', hout', heq⟩ := ExceptList.mapM_rel (S := Eq) h hrow hout
  rw [List.forall₂_eq_eq_eq] at heq
  subst heq
  exact hout'

omit [PyRuntime F] in
/-- An unwrapped aggregate reads what its expression reads. -/
theorem unwrapAggregate_covers {e : Expression F} {agg : AggregateFunction F}
    (h : unwrapAggregate e = .ok agg) (hP : Covers P e) {c : Expression F}
    (hc : agg.child = some c) : Covers P c := by
  intro n hn
  refine hP n ?_
  rw [← Expression.referencedColumns_unalias]
  unfold unwrapAggregate at h
  split at h
  · cases h; cases hc
  · next he =>
      cases h
      cases hc
      rw [he]
      exact hn
  · cases h

theorem update_of_agree {agg : AggregateFunction F} {r r' : Record F} {s t : Value F}
    (hP : ∀ c, agg.child = some c → Covers P c) (h : Agree P r r')
    (ht : agg.update s r = .ok t) : agg.update s r' = .ok t := by
  obtain ⟨name, child⟩ := agg
  cases child with
  | none => cases name <;> exact ht
  | some e =>
      have he := fun v => evaluate_of_agree (v := v) (hP e rfl) h
      cases name <;>
        · obtain ⟨v, hv, ht⟩ := ExceptList.bind_eq_ok.mp ht
          exact ExceptList.bind_eq_ok.mpr ⟨v, he v hv, ht⟩

theorem aggregateRows_agree {groupBy aggregates : List (Expression F)} {schema schema' : Schema}
    (h : AgreeRows P rows rows') (hg : ∀ e ∈ groupBy, Covers P e)
    (ha : ∀ e ∈ aggregates, Covers P e)
    (hout : aggregateRows groupBy aggregates schema rows = .ok out) :
    aggregateRows groupBy aggregates schema' rows' = .ok out := by
  obtain ⟨aggs, haggs, hout⟩ := ExceptList.bind_eq_ok.mp hout
  obtain ⟨groups, hgroups, hout⟩ := ExceptList.bind_eq_ok.mp hout
  have hcover : ∀ agg ∈ aggs, ∀ c, agg.child = some c → Covers P c := by
    intro agg hagg c hc
    obtain ⟨hlen, hget⟩ := List.forall₂_iff_get.mp (ExceptList.mapM_eq_ok.mp haggs)
    obtain ⟨i, hi, rfl⟩ := List.mem_iff_getElem.mp hagg
    exact unwrapAggregate_covers (hget i (hlen ▸ hi) hi) (ha _ (List.get_mem _ ⟨i, hlen ▸ hi⟩)) hc
  have hgroups' : rows'.foldlM (groupStep groupBy aggs) OrderedDict.empty = .ok groups := by
    refine ExceptList.foldlM_rel h (fun r _ r' hr g g' hg' => ?_) hgroups
    obtain ⟨key, state, hkey, hstate, rfl⟩ := OrderedDict.foldStep_eq_ok.mp hg'
    refine OrderedDict.foldStep_eq_ok.mpr ⟨key, state, tupleKey_of_agree hg hr hkey, ?_, rfl⟩
    simp only [nextState, if_true] at hstate ⊢
    rw [ExceptList.mapM_eq_ok] at hstate ⊢
    refine ExceptList.forall₂_imp_of_mem hstate (fun p hp t _ ht => ?_)
    exact update_of_agree (hcover p.1 (List.of_mem_zip hp).1) hr ht
  rw [aggregateRows, haggs, ExceptList.bind_ok, hgroups', ExceptList.bind_ok]
  exact hout

/-- The joined rows agree where each side agrees on the names that come from it. -/
theorem hashJoinRows_agree {P Pl Pr : String → Prop} {on : List String}
    {left left' right right' : List (Record F)} {ln ln' rn rn' : List String}
    (hl : AgreeRows Pl left left') (hr : AgreeRows Pr right right')
    (hlk : ∀ r ∈ left, HasKeys ln r) (hlk' : ∀ r ∈ left', HasKeys ln' r)
    (hrk : ∀ r ∈ right, HasKeys rn r) (hrk' : ∀ r ∈ right', HasKeys rn' r)
    (hln : ln' ⊆ ln) (hrn : rn' ⊆ rn) (hon : ∀ n ∈ on, Pl n ∧ Pr n)
    (hPl : ∀ n, P n → n ∈ ln → Pl n) (hPr : ∀ n, P n → n ∈ rn → n ∉ on → Pr n)
    (hout : hashJoinRows (on.map Expression.column) (on.map Expression.column) on left right =
      .ok out) :
    ∃ out', hashJoinRows (on.map Expression.column) (on.map Expression.column) on left' right' =
      .ok out' ∧ AgreeRows P out out' := by
  obtain ⟨hleft, hright, rfl⟩ := hashJoinRows_eq_ok.mp hout
  have hcover : ∀ {Q : String → Prop}, (∀ n ∈ on, Q n) →
      ∀ e ∈ on.map (Expression.column (F := F)), Covers Q e := by
    intro Q hQ e he n hn
    obtain ⟨c, hc, rfl⟩ := List.mem_map.mp he
    rw [List.mem_singleton.mp hn]
    exact hQ c hc
  have hcl := hcover (fun n hn => (hon n hn).1)
  have hcr := hcover (fun n hn => (hon n hn).2)
  have hkeys : ∀ {Q : String → Prop} {a a' : List (Record F)}, AgreeRows Q a a' →
      (∀ e ∈ on.map (Expression.column (F := F)), Covers Q e) →
      HaveKeys (on.map Expression.column) a → HaveKeys (on.map Expression.column) a' := by
    intro Q a a' haa hQ hk x hx
    obtain ⟨hlen, hget⟩ := List.forall₂_iff_get.mp haa
    obtain ⟨i, hi, rfl⟩ := List.mem_iff_getElem.mp hx
    obtain ⟨k, hk⟩ := hk _ (List.get_mem a ⟨i, hlen ▸ hi⟩)
    exact ⟨k, tupleKey_of_agree hQ (hget i (hlen ▸ hi) hi) hk⟩
  refine ⟨_, hashJoinRows_eq_ok.mpr ⟨hkeys hl hcl hleft, hkeys hr hcr hright, rfl⟩, ?_⟩
  refine List.rel_flatMap (ExceptList.forall₂_imp_of_mem (S := fun r r' => r ∈ right ∧ r' ∈ right' ∧
    Agree Pr r r') hr (fun a ha a' ha' h => ⟨ha, ha', h⟩)) ?_
  rintro r r' ⟨hrm, hrm', hagree⟩
  obtain ⟨kr, hkr⟩ := hright r hrm
  have hleft' := ExceptList.forall₂_imp_of_mem (S := fun l l' => l ∈ left ∧ l' ∈ left' ∧
    Agree Pl l l') hl (fun a ha a' ha' h => ⟨ha, ha', h⟩)
  have hmatch := List.rel_filter (p := fun l => keysMatch (on.map Expression.column)
    (on.map Expression.column) l r) (q := fun l => keysMatch (on.map Expression.column)
    (on.map Expression.column) l r') (by
      rintro l l' ⟨hlm, -, hla⟩
      obtain ⟨kl, hkl⟩ := hleft l hlm
      beta_reduce
      rw [keysMatch_of_ok hkl hkr,
        keysMatch_of_ok (tupleKey_of_agree hcl hla hkl) (tupleKey_of_agree hcr hagree hkr)]) hleft'
  refine List.rel_map ?_ hmatch
  rintro l l' ⟨hlm, hlm', hla⟩ n hn
  have hside : ∀ {names names' : List String} {x x' : Record F} {Q : String → Prop},
      HasKeys names x → HasKeys names' x' → names' ⊆ names → (n ∈ names → Q n) → Agree Q x x' →
      x'.get? n = x.get? n := by
    intro names names' x x' Q hx hx' hsub hQ hag
    by_cases hmem : n ∈ names
    · exact hag n (hQ hmem)
    · have h1 : x.get? n = none := by
        rw [← Option.not_isSome_iff_eq_none, hx n]
        exact hmem
      have h2 : x'.get? n = none := by
        rw [← Option.not_isSome_iff_eq_none, hx' n]
        exact fun h => hmem (hsub h)
      rw [h1, h2]
  rw [mergeRow_get?, mergeRow_get?]
  split
  · next hnon => exact hla n (hon n hnon).1
  · next hnon =>
      rw [hside (hrk r hrm) (hrk' r' hrm') hrn (fun h => hPr n hn h hnon) hagree,
        hside (hlk l hlm) (hlk' l' hlm') hln (hPl n hn) hla]

section SortAgree

/-- Sorting looks at the keys only, so related payloads stay related. -/
theorem pySort_rel {κ α β : Type} {R : α → β → Prop} {lt : κ → κ → Py Bool} {reverse : Bool}
    {items : List (κ × α)} {items' : List (κ × β)} {out : List α}
    (h : List.Forall₂ (fun x y => x.1 = y.1 ∧ R x.2 y.2) items items')
    (hout : pySort lt reverse items = .ok out) :
    ∃ out', pySort lt reverse items' = .ok out' ∧ List.Forall₂ R out out' := by
  obtain ⟨zs, rfl, rfl, hR⟩ : ∃ zs : List (κ × α × β), items = zs.map (fun z => (z.1, z.2.1)) ∧
      items' = zs.map (fun z => (z.1, z.2.2)) ∧ ∀ z ∈ zs, R z.2.1 z.2.2 := by
    clear hout
    induction h with
    | nil => exact ⟨[], rfl, rfl, by simp⟩
    | @cons x y xs ys hxy _ ih =>
        obtain ⟨zs, rfl, rfl, hzs⟩ := ih
        refine ⟨(x.1, x.2, y.2) :: zs, rfl, ?_, List.forall_mem_cons.mpr ⟨hxy.2, hzs⟩⟩
        rw [List.map_cons, hxy.1]
  obtain ⟨u, hcheck, hout⟩ := ExceptList.bind_eq_ok.mp hout
  cases hout
  have hkeys : (zs.map (fun z => (z.1, z.2.2))).map Prod.fst =
      (zs.map (fun z => (z.1, z.2.1))).map Prod.fst := by
    rw [List.map_map, List.map_map]
    rfl
  refine ⟨_, by rw [pySort, hkeys, hcheck]; rfl, ?_⟩
  rw [← List.map_mergeSort (r := fun a b => if reverse then notLt lt b.1 a.1 else notLt lt a.1 b.1)
      (f := fun z : κ × α × β => (z.1, z.2.1)) (fun _ _ _ _ => rfl),
    ← List.map_mergeSort (r := fun a b => if reverse then notLt lt b.1 a.1 else notLt lt a.1 b.1)
      (f := fun z : κ × α × β => (z.1, z.2.2)) (fun _ _ _ _ => rfl), List.map_map, List.map_map,
    List.forall₂_map_left_iff, List.forall₂_map_right_iff, List.forall₂_same]
  exact fun z hz => hR z (List.mem_mergeSort.mp hz)

/-- The same arrival number and agreeing rows. -/
def AgreeArrival (P : String → Prop) (p p' : Arrival F) : Prop := p.1 = p'.1 ∧ Agree P p.2 p'.2

theorem sortPass_agree {k : Expression F × Bool} {rows rows' out : List (Arrival F)}
    (h : List.Forall₂ (AgreeArrival P) rows rows') (hP : Covers P k.1)
    (hout : sortPass k rows = .ok out) :
    ∃ out', sortPass k rows' = .ok out' ∧ List.Forall₂ (AgreeArrival P) out out' := by
  obtain ⟨keyed, hkeyed, hout⟩ := ExceptList.bind_eq_ok.mp hout
  obtain ⟨keyed', hkeyed', hrel⟩ := ExceptList.mapM_rel
    (S := fun x y => x.1 = y.1 ∧ AgreeArrival P x.2 y.2) (g := fun p => do
      let key ← nullLastSortKey k.1 k.2 p.2
      pure (key, p)) h (by
      intro p _ p' hp b hb
      obtain ⟨key, hkey, hb⟩ := ExceptList.bind_eq_ok.mp hb
      obtain ⟨v, hv, hkey⟩ := ExceptList.bind_eq_ok.mp hkey
      cases hb
      refine ⟨(key, p'), ?_, rfl, hp⟩
      rw [nullLastSortKey, evaluate_of_agree hP hp.2 hv, ExceptList.bind_ok, hkey]
      rfl) hkeyed
  obtain ⟨out', hout', hrel'⟩ := pySort_rel hrel hout
  exact ⟨out', by rw [sortPass, hkeyed']; exact hout', hrel'⟩

theorem sortRows_agree {keys : List (Expression F × Bool)} {rows rows' out : List (Arrival F)}
    (h : List.Forall₂ (AgreeArrival P) rows rows') (hP : ∀ k ∈ keys, Covers P k.1)
    (hout : sortRows rows keys = .ok out) :
    ∃ out', sortRows rows' keys = .ok out' ∧ List.Forall₂ (AgreeArrival P) out out' := by
  unfold sortRows at *
  have hP' : ∀ k ∈ keys.reverse, Covers P k.1 := fun k hk => hP k (List.mem_reverse.mp hk)
  generalize keys.reverse = ks at hout hP'
  induction ks generalizing rows rows' with
  | nil => cases hout; exact ⟨rows', rfl, h⟩
  | cons k ks ih =>
      rw [List.foldlM_cons] at hout
      obtain ⟨mid, hmid, hout⟩ := ExceptList.bind_eq_ok.mp hout
      obtain ⟨mid', hmid', hrel⟩ := sortPass_agree h (hP' k (by simp)) hmid
      obtain ⟨out', hout', hrel'⟩ := ih hrel hout (fun k hk => hP' k (by simp [hk]))
      exact ⟨out', by rw [List.foldlM_cons, hmid']; exact hout', hrel'⟩

omit [PyRuntime F] in
lemma arrivals_agree (h : AgreeRows P rows rows') :
    List.Forall₂ (AgreeArrival P) (arrivals rows) (arrivals rows') := by
  unfold arrivals
  generalize 0 = start
  induction h generalizing start with
  | nil => exact List.Forall₂.nil
  | cons hr _ ih => exact List.Forall₂.cons ⟨rfl, hr⟩ (ih (start + 1))

end SortAgree

end Operators

end MiniSpark
