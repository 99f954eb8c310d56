import MiniSpark.OptimizerFields
import MiniSpark.QueryExecution
import MiniSpark.ReadContract

/-!
# Optimized queries can be distributed

What dealing rows to partitions takes of the rows of an operator: keys of one type, exact
aggregates, comparable sort keys. Every rule of the optimizer keeps it, since the rows that reach
an operator of the optimized plan are some of the rows that reached it before, with the same
values in the columns that are read.
-/
namespace MiniSpark

variable {F : Type} [PyRuntime F]

section Drawn

omit [PyRuntime F] in
/-- Each of the second rows agrees on `P` with one of the first. -/
def Drawn (P : String → Prop) (rows rows' : List (Record F)) : Prop :=
  ∀ r' ∈ rows', ∃ r ∈ rows, Agree P r r'

variable {P : String → Prop} {rows rows' : List (Record F)}

omit [PyRuntime F] in
lemma Drawn.of_subset (P : String → Prop) (h : rows' ⊆ rows) : Drawn P rows rows' :=
  fun r hr => ⟨r, h hr, .refl P r⟩

omit [PyRuntime F] in
lemma AgreeRows.drawn (h : AgreeRows P rows rows') : Drawn P rows rows' := by
  intro r' hr'
  obtain ⟨i, hi, rfl⟩ := List.getElem_of_mem hr'
  have hi' : i < rows.length := h.length_eq ▸ hi
  exact ⟨rows[i], List.getElem_mem hi', h.get hi' hi⟩

omit [PyRuntime F] in
lemma Drawn.append {left left' right right' : List (Record F)} (hl : Drawn P left left')
    (hr : Drawn P right right') : Drawn P (left ++ right) (left' ++ right') := by
  intro r' hr'
  rcases List.mem_append.mp hr' with h | h
  · obtain ⟨r, hr, hag⟩ := hl r' h
    exact ⟨r, List.mem_append_left _ hr, hag⟩
  · obtain ⟨r, hr, hag⟩ := hr r' h
    exact ⟨r, List.mem_append_right _ hr, hag⟩

omit [PyRuntime F] in
lemma Drawn.mono {Q : String → Prop} (h : Drawn P rows rows') (hQ : ∀ n, Q n → P n) :
    Drawn Q rows rows' := by
  intro r' hr'
  obtain ⟨r, hr, hag⟩ := h r' hr'
  exact ⟨r, hr, fun n hn => hag n (hQ n hn)⟩

omit [PyRuntime F] in
lemma HoldKinds.drawn {names : List String} (h : HoldKinds names rows) (hd : Drawn P rows rows')
    (hP : ∀ n ∈ names, P n) : HoldKinds names rows' := by
  intro n hn
  obtain ⟨kind, hkind⟩ := h n hn
  refine ⟨kind, fun r' hr' => ?_⟩
  obtain ⟨r, hr, hag⟩ := hd r' hr'
  obtain ⟨v, hv, hadmits⟩ := hkind r hr
  exact ⟨v, (hag n (hP n hn)).trans hv, hadmits⟩

lemma keyPrints_of_drawn {names : List String} (h : ∀ r ∈ rows, KeyPrints names r)
    (hd : Drawn P rows rows') (hP : ∀ n ∈ names, P n) : ∀ r ∈ rows', KeyPrints names r := by
  intro r' hr'
  obtain ⟨r, hr, hag⟩ := hd r' hr'
  have hkey : keyOf names r' = keyOf names r :=
    List.map_congr_left (fun n hn => by rw [hag n (hP n hn)])
  rw [KeyPrints, hkey]
  exact h r hr

lemma HashesKeys.drawn {names : List String} (h : HashesKeys names rows) (hd : Drawn P rows rows')
    (hP : ∀ n ∈ names, P n) : HashesKeys names rows' :=
  ⟨h.kinds.drawn hd hP, keyPrints_of_drawn h.prints hd hP⟩

lemma evaluate_of_drawn {e : Expression F} {r r' : Record F} (hP : Covers P e) (h : Agree P r r')
    (v : Value F) : e.evaluate r' = .ok v ↔ e.evaluate r = .ok v :=
  ⟨evaluate_of_agree hP (fun n hn => (h n hn).symm), evaluate_of_agree hP h⟩

lemma SortableBy.drawn {e : Expression F} (h : SortableBy e rows) (hd : Drawn P rows rows')
    (hP : Covers P e) : SortableBy e rows' where
  evaluates r' hr' := by
    obtain ⟨r, hr, hag⟩ := hd r' hr'
    obtain ⟨v, hv⟩ := h.evaluates r hr
    exact ⟨v, evaluate_of_agree hP hag hv⟩
  comparable := h.comparable.mono (by
    rintro v ⟨hnone, r', hr', hv⟩
    obtain ⟨r, hr, hag⟩ := hd r' hr'
    exact ⟨hnone, r, hr, (evaluate_of_drawn hP hag v).mp hv⟩)

/-- The tally of drawn rows is that of the rows they are drawn from. -/
lemma AggregateFunction.Exact.drawn {agg : AggregateFunction F} (h : agg.Exact rows)
    (hd : Drawn P rows rows') (hP : ∀ c, agg.child = some c → Covers P c) : agg.Exact rows' := by
  obtain ⟨tally, ht, hfinal⟩ := h
  choose! back hback hag using hd
  have hmap : ∀ xs : List (Record F), (∀ x ∈ xs, x ∈ rows') → ∀ y ∈ xs.map back, y ∈ rows := by
    intro xs hxs y hy
    obtain ⟨x, hx, rfl⟩ := List.mem_map.mp hy
    exact hback x (hxs x hx)
  refine ⟨fun xs => tally (xs.map back), ⟨ht.start, fun xs x hxs hx => ?_, fun xs ys hxs hys => ?_,
    fun xs ys hperm hxs => ?_⟩, fun xs hxs => hfinal _ (hmap xs hxs)⟩
  · rw [List.map_append]
    exact update_of_agree hP (hag x hx) (ht.step _ _ (hmap xs hxs) (hback x hx))
  · rw [List.map_append]
    exact ht.merge _ _ (hmap xs hxs) (hmap ys hys)
  · exact ht.perm _ _ (hperm.map back) (hmap xs hxs)

end Drawn

section Operators

namespace LogicalPlan

/-- The rows of the second plan are drawn from those of the first. -/
def DrawsFrom (P : String → Prop) (plan plan' : LogicalPlan F) : Prop :=
  ∀ rows', naiveRows plan' = .ok rows' → ∃ rows, naiveRows plan = .ok rows ∧ Drawn P rows rows'

/-- Where a plan runs, a simulation draws from it. -/
lemma DrawsFrom.of_simulates {P : String → Prop} {plan plan' : LogicalPlan F}
    {rows : List (Record F)} (h : Simulates P plan plan') (hrun : naiveRows plan = .ok rows) :
    DrawsFrom P plan plan' := by
  intro rows' hrows'
  obtain ⟨out, hout, hag⟩ := h rows hrun
  obtain rfl := Except.ok.inj (hout.symm.trans hrows')
  exact ⟨rows, hrun, hag.drawn⟩

variable {P : String → Prop} {child child' : LogicalPlan F}

theorem Distributable.aggregate {groupBy aggregates : List (Expression F)}
    (h : (LogicalPlan.aggregate child groupBy aggregates).Distributable)
    (hd' : child'.Distributable) (hdraws : DrawsFrom P child child')
    (hg : ∀ e ∈ groupBy, e.isColumn = true ∧ Covers P e) (hagg : ∀ e ∈ aggregates, Covers P e) :
    (LogicalPlan.aggregate child' groupBy aggregates).Distributable := by
  refine ⟨hd', h.2.1, fun rows' hrows' => ?_⟩
  obtain ⟨rows, hrows, hdrawn⟩ := hdraws rows' hrows'
  obtain ⟨hkeys, hexact⟩ := h.2.2 rows hrows
  refine ⟨hkeys.drawn hdrawn (fun n hn => ?_), fun a ha f hf => ?_⟩
  · obtain ⟨e, he, rfl⟩ := List.mem_map.mp hn
    obtain ⟨hcolumn, hcovers⟩ := hg e he
    cases e with
    | column m => exact hcovers m (by simp [Expression.referencedColumns])
    | _ => cases hcolumn
  · exact (hexact a ha f hf).drawn hdrawn (fun c hc => unwrapAggregate_covers hf (hagg a ha) hc)

theorem Distributable.join {Pl Pr : String → Prop} {left left' right right' : LogicalPlan F}
    {on : List String} {how : String} {broadcast : Bool}
    (h : (LogicalPlan.join left right on how broadcast).Distributable)
    (hl : left'.Distributable) (hr : right'.Distributable) (hdl : DrawsFrom Pl left left')
    (hdr : DrawsFrom Pr right right') (hon : ∀ n ∈ on, Pl n ∧ Pr n) :
    (LogicalPlan.join left' right' on how broadcast).Distributable := by
  refine ⟨hl, hr, fun lrows' rrows' hlrows' hrrows' => ?_⟩
  obtain ⟨lrows, hlrows, hdrawnl⟩ := hdl lrows' hlrows'
  obtain ⟨rrows, hrrows, hdrawnr⟩ := hdr rrows' hrrows'
  refine (h.2.2 lrows rrows hlrows hrrows).drawn (P := fun n => Pl n ∧ Pr n) ?_ hon
  exact (hdrawnl.mono fun _ hn => hn.1).append (hdrawnr.mono fun _ hn => hn.2)

theorem Distributable.sort {keys : List (Expression F × Bool)}
    (h : (LogicalPlan.sort child keys).Distributable) (hd' : child'.Distributable)
    (hdraws : DrawsFrom P child child') (hfields : KeepsFields child child')
    (ha : child.Analyzed) (hP : ∀ k ∈ keys, Covers P k.1) :
    (LogicalPlan.sort child' keys).Distributable := by
  refine ⟨hd', h.2.1, fun rows' hrows' => ?_⟩
  obtain ⟨rows, hrows, hdrawn⟩ := hdraws rows' hrows'
  obtain ⟨hsortable, hrange, hprints⟩ := h.2.2 rows hrows
  have hread : ∀ name ascending rest, keys = (.column name, ascending) :: rest → P name := by
    intro name ascending rest hkeys
    refine hP (.column name, ascending) ?_ name (by simp [Expression.referencedColumns])
    rw [hkeys]
    exact List.mem_cons_self
  refine ⟨fun k hk => (hsortable k hk).drawn hdrawn (hP k hk), ?_, fun name ascending rest hkeys =>
    keyPrints_of_drawn (hprints name ascending rest hkeys) hdrawn
      (List.forall_mem_singleton.mpr (hread name ascending rest hkeys))⟩
  intro name ascending rest schema' field hkeys hschema' hfield htype
  obtain ⟨schema, hschema⟩ := ha.schema_ok
  have hname : name ∈ schema'.fieldNames := by
    obtain rfl : field.name = name := by simpa using List.find?_some hfield
    exact List.mem_map_of_mem (List.mem_of_find?_eq_some hfield)
  rw [Schema.getField?_of_subset (hfields schema schema' hschema hschema') hname] at hfield
  obtain ⟨toRat, hexact, hnumbers⟩ := hrange name ascending rest schema field hkeys hschema hfield htype
  refine ⟨toRat, hexact, fun r' hr' v hv => ?_⟩
  obtain ⟨r, hr, hag⟩ := hdrawn r' hr'
  exact hnumbers r hr v ((hag name (hread name ascending rest hkeys)).symm.trans hv)

end LogicalPlan

end Operators

section Rules

open LogicalPlan

variable {plan plan' : LogicalPlan F} {rows : List (Record F)}

/-- Rewriting keeps what the place of an expression needs, and makes no columns. -/
structure RewritesSafely (fn : Expression F → Py (Expression F)) (plan : LogicalPlan F) : Prop where
  conditions : ∀ e ∈ plan.conditions, ∃ e', fn e = .ok e' ∧ KeepsTruth e e'
  projected : ∀ e ∈ plan.projected, (∃ e', fn e = .ok e' ∧ KeepsValue e e') ∧ KeepsColumn fn e

lemma RewritesSafely.of_subset {fn : Expression F → Py (Expression F)}
    (h : RewritesSafely fn plan) (hc : plan'.conditions ⊆ plan.conditions)
    (hp : plan'.projected ⊆ plan.projected) : RewritesSafely fn plan' :=
  ⟨fun e he => h.conditions e (hc he), fun e he => h.projected e (hp he)⟩

theorem RewritesInPlace.refines {fn : Expression F → Py (Expression F)} (hfn : RewritesInPlace fn)
    (ha : plan.Analyzed) (hs : plan.NamesSettled) (ht : plan.TablesConform)
    (hsafe : RewritesSafely fn plan) (h : mapExpressions fn plan = .ok plan') :
    Refines plan plan' := by
  obtain ⟨p, hp, href⟩ := mapExpressions_refines hfn ha hs ht hsafe.conditions
    (fun e he => (hsafe.projected e he).1)
  obtain rfl := Except.ok.inj (hp.symm.trans h)
  exact href

theorem RewritesInPlace.distributable {fn : Expression F → Py (Expression F)}
    (hfn : RewritesInPlace fn) (ha : plan.Analyzed) (hs : plan.NamesSettled)
    (ht : plan.TablesConform) (hsafe : RewritesSafely fn plan) (hd : plan.Distributable)
    (hrun : naiveRows plan = .ok rows) (h : mapExpressions fn plan = .ok plan') :
    plan'.Distributable := by
  induction plan generalizing plan' rows with
  | scan _ _ _ => cases h; trivial
  | filter child condition ih =>
      obtain ⟨crows, hrun, -⟩ := ExceptList.bind_eq_ok.mp hrun
      obtain ⟨child', hc, h⟩ := ExceptList.bind_eq_ok.mp h
      obtain ⟨condition', -, h⟩ := ExceptList.bind_eq_ok.mp h
      have hd' := ih ha.1 hs ht (hsafe.of_subset (List.subset_cons_self _ _) (List.Subset.refl _))
        hd hrun hc
      cases h
      exact hd'
  | project child columns ih =>
      obtain ⟨crows, hrun, -⟩ := ExceptList.bind_eq_ok.mp hrun
      obtain ⟨child', hc, h⟩ := ExceptList.bind_eq_ok.mp h
      obtain ⟨columns', -, h⟩ := ExceptList.bind_eq_ok.mp h
      have hd' := ih ha.1 hs.1 ht (hsafe.of_subset (List.Subset.refl _)
        (List.subset_append_right _ _)) hd hrun hc
      cases h
      exact hd'
  | aggregate child groupBy aggregates ih =>
      obtain ⟨crows, hcrun, -⟩ := ExceptList.bind_eq_ok.mp hrun
      obtain ⟨child', hc, h⟩ := ExceptList.bind_eq_ok.mp h
      obtain ⟨groupBy', hgs, h⟩ := ExceptList.bind_eq_ok.mp h
      obtain ⟨aggregates', has, h⟩ := ExceptList.bind_eq_ok.mp h
      cases h
      obtain rfl : groupBy' = groupBy := mapM_fixed (fun e he e' hfe => (Except.ok.inj
        ((hfn.settled e (settled_column (ha.2.1 e he).1)).symm.trans hfe)).symm) hgs
      obtain rfl : aggregates' = aggregates := mapM_fixed (fun e he e' hfe => (Except.ok.inj
        ((hfn.aggregate_fixed (ha.2.2.1 e he).1).symm.trans hfe)).symm) has
      have hsafe' : RewritesSafely fn child :=
        hsafe.of_subset (List.Subset.refl _) (List.Subset.refl _)
      exact hd.aggregate (ih ha.1 hs ht hsafe' hd.1 hcrun hc)
        (.of_simulates (hfn.refines ha.1 hs ht hsafe' hc) hcrun) ha.2.1
        (fun e he => (ha.2.2.1 e he).2)
  | join left right on how broadcast ihl ihr =>
      obtain ⟨lrows, hrunl, hrun⟩ := ExceptList.bind_eq_ok.mp hrun
      obtain ⟨rrows, hrunr, -⟩ := ExceptList.bind_eq_ok.mp hrun
      obtain ⟨left', hl, h⟩ := ExceptList.bind_eq_ok.mp h
      obtain ⟨right', hr, h⟩ := ExceptList.bind_eq_ok.mp h
      cases h
      have htl : left.TablesConform := ht.mono (List.subset_append_left _ _)
      have htr : right.TablesConform := ht.mono (List.subset_append_right _ _)
      have hsl : RewritesSafely fn left :=
        hsafe.of_subset (List.subset_append_left _ _) (List.subset_append_left _ _)
      have hsr : RewritesSafely fn right :=
        hsafe.of_subset (List.subset_append_right _ _) (List.subset_append_right _ _)
      exact hd.join (ihl ha.1 hs.1 htl hsl hd.1 hrunl hl) (ihr ha.2.1 hs.2 htr hsr hd.2.1 hrunr hr)
        (.of_simulates (hfn.refines ha.1 hs.1 htl hsl hl) hrunl)
        (.of_simulates (hfn.refines ha.2.1 hs.2 htr hsr hr) hrunr) ha.2.2.2.2.1
  | sort child keys ih =>
      obtain ⟨crows, hrun, -⟩ := ExceptList.bind_eq_ok.mp hrun
      obtain ⟨child', hc, h⟩ := ExceptList.bind_eq_ok.mp h
      obtain ⟨keys', hks, h⟩ := ExceptList.bind_eq_ok.mp h
      cases h
      have hfixed : keys.mapM (fun k => do
          let e ← fn k.1
          pure (e, k.2)) = .ok keys := by
        rw [ExceptList.mapM_eq_ok, List.forall₂_same]
        exact fun k hk => by simp [hfn.settled k.1 (settled_column (ha.2 k hk).1)]
      obtain rfl : keys = keys' := Except.ok.inj (hfixed.symm.trans hks)
      have hsafe' : RewritesSafely fn child :=
        hsafe.of_subset (List.Subset.refl _) (List.Subset.refl _)
      exact hd.sort (ih ha.1 hs ht hsafe' hd.1 hrun hc)
        (.of_simulates (hfn.refines ha.1 hs ht hsafe' hc) hrun)
        (.of_schema (hfn.schema ha.1 hs (fun e he => (hsafe'.projected e he).2) hc)) ha.1
        (fun k hk => (ha.2 k hk).2)

/-- A filter draws from its child. -/
lemma drawsFrom_filter (child : LogicalPlan F) (condition : Expression F) :
    DrawsFrom (fun _ => True) child (.filter child condition) := by
  intro rows' hrows'
  obtain ⟨rows, hrows, hfilter⟩ := ExceptList.bind_eq_ok.mp hrows'
  refine ⟨rows, hrows, .of_subset _ ?_⟩
  rw [(ExceptList.filterE_eq_ok.mp hfilter).2]
  exact List.filter_subset_self _

lemma drawsFrom_self (plan : LogicalPlan F) : DrawsFrom (fun _ => True) plan plan :=
  fun rows hrows => ⟨rows, hrows, .of_subset _ (List.Subset.refl _)⟩

theorem pushFilter_distributable {child : LogicalPlan F} {condition : Expression F}
    (hd : child.Distributable) (h : pushFilter child condition = .ok plan') :
    plan'.Distributable := by
  unfold pushFilter at h
  split at h
  · obtain ⟨s, -, h⟩ := ExceptList.bind_eq_ok.mp h
    split at h <;> cases h <;> exact hd
  · next left right on how broadcast =>
      obtain ⟨l, -, h⟩ := ExceptList.bind_eq_ok.mp h
      obtain ⟨r, -, h⟩ := ExceptList.bind_eq_ok.mp h
      split at h
      · cases h
        exact hd.join hd.1 hd.2.1 (drawsFrom_filter left condition) (drawsFrom_self right)
          (fun _ _ => ⟨trivial, trivial⟩)
      · split at h <;> cases h
        · exact hd.join hd.1 hd.2.1 (drawsFrom_self left) (drawsFrom_filter right condition)
            (fun _ _ => ⟨trivial, trivial⟩)
        · exact hd
  · cases h
    exact hd

theorem pushdown_distributable (ha : plan.Analyzed) (ht : plan.TablesConform)
    (hsafe : PushdownSafe plan) (hd : plan.Distributable) (hrun : naiveRows plan = .ok rows)
    (h : pushdown plan = .ok plan') : plan'.Distributable := by
  have hrefines : ∀ {p p' : LogicalPlan F}, p.Analyzed → p.TablesConform → PushdownSafe p →
      pushdown p = .ok p' → Refines p p' := by
    intro p p' ha ht hsafe h
    obtain ⟨q, hq, href⟩ := pushdown_refines ha ht hsafe
    obtain rfl := Except.ok.inj (hq.symm.trans h)
    exact href
  induction plan generalizing plan' rows with
  | scan _ _ _ => cases h; trivial
  | filter child condition ih =>
      obtain ⟨crows, hrun, -⟩ := ExceptList.bind_eq_ok.mp hrun
      obtain ⟨child', hc, h⟩ := ExceptList.bind_eq_ok.mp h
      exact pushFilter_distributable (ih ha.1 ht hsafe.child hd hrun hc) h
  | project child columns ih =>
      obtain ⟨crows, hrun, -⟩ := ExceptList.bind_eq_ok.mp hrun
      obtain ⟨child', hc, h⟩ := ExceptList.bind_eq_ok.mp h
      have hd' := ih ha.1 ht hsafe.1 hd hrun hc
      cases h
      exact hd'
  | aggregate child groupBy aggregates ih =>
      obtain ⟨crows, hrun, -⟩ := ExceptList.bind_eq_ok.mp hrun
      obtain ⟨child', hc, h⟩ := ExceptList.bind_eq_ok.mp h
      cases h
      exact hd.aggregate (ih ha.1 ht hsafe hd.1 hrun hc)
        (.of_simulates (hrefines ha.1 ht hsafe hc) hrun) ha.2.1 (fun e he => (ha.2.2.1 e he).2)
  | join left right on how broadcast ihl ihr =>
      obtain ⟨lrows, hrunl, hrun⟩ := ExceptList.bind_eq_ok.mp hrun
      obtain ⟨rrows, hrunr, -⟩ := ExceptList.bind_eq_ok.mp hrun
      obtain ⟨left', hl, h⟩ := ExceptList.bind_eq_ok.mp h
      obtain ⟨right', hr, h⟩ := ExceptList.bind_eq_ok.mp h
      cases h
      have htl : left.TablesConform := ht.mono (List.subset_append_left _ _)
      have htr : right.TablesConform := ht.mono (List.subset_append_right _ _)
      exact hd.join (ihl ha.1 htl hsafe.1 hd.1 hrunl hl) (ihr ha.2.1 htr hsafe.2.1 hd.2.1 hrunr hr)
        (.of_simulates (hrefines ha.1 htl hsafe.1 hl) hrunl)
        (.of_simulates (hrefines ha.2.1 htr hsafe.2.1 hr) hrunr) ha.2.2.2.2.1
  | sort child keys ih =>
      obtain ⟨crows, hrun, -⟩ := ExceptList.bind_eq_ok.mp hrun
      obtain ⟨child', hc, h⟩ := ExceptList.bind_eq_ok.mp h
      cases h
      exact hd.sort (ih ha.1 ht hsafe hd.1 hrun hc)
        (.of_simulates (hrefines ha.1 ht hsafe hc) hrun) (.of_schema (pushdown_schema hc)) ha.1
        (fun k hk => (ha.2 k hk).2)

lemma pruneScan_distributable (dataset : Dataset F) (sourceName : String)
    (source : Option (ScanSource F)) (needed : Option (List String)) :
    (pruneScan dataset sourceName source needed).Distributable := by
  unfold pruneScan
  split
  · trivial
  · simp only
    split <;> trivial

theorem prune_distributable {needed : Option (List String)} (ha : plan.Analyzed)
    (ht : plan.TablesConform) (hd : plan.Distributable) (hrun : naiveRows plan = .ok rows)
    (h : prune plan needed = .ok plan') : plan'.Distributable := by
  have hdraws : ∀ {p p' : LogicalPlan F} {needed : Option (List String)} {rows : List (Record F)},
      p.Analyzed → p.TablesConform → naiveRows p = .ok rows → prune p needed = .ok p' →
      DrawsFrom (fun n => n ∈ p.outputNames ∧ Needed needed n) p p' := by
    intro p p' needed rows ha ht hrun h
    obtain ⟨q, hq, hsim⟩ := prune_simulates ha ht needed
    obtain rfl := Except.ok.inj (hq.symm.trans h)
    exact .of_simulates hsim hrun
  induction plan generalizing plan' rows needed with
  | scan dataset sourceName source =>
      cases h
      exact pruneScan_distributable dataset sourceName source needed
  | filter child condition ih =>
      obtain ⟨crows, hrun, -⟩ := ExceptList.bind_eq_ok.mp hrun
      obtain ⟨child', hc, h⟩ := ExceptList.bind_eq_ok.mp h
      have hd' := ih ha.1 ht hd hrun hc
      cases h
      exact hd'
  | project child columns ih =>
      obtain ⟨crows, hrun, -⟩ := ExceptList.bind_eq_ok.mp hrun
      obtain ⟨child', hc, h⟩ := ExceptList.bind_eq_ok.mp h
      have hd' := ih ha.1 ht hd hrun hc
      cases h
      exact hd'
  | aggregate child groupBy aggregates ih =>
      obtain ⟨crows, hrun, -⟩ := ExceptList.bind_eq_ok.mp hrun
      obtain ⟨child', hc, h⟩ := ExceptList.bind_eq_ok.mp h
      cases h
      refine hd.aggregate (ih ha.1 ht hd.1 hrun hc) (hdraws ha.1 ht hrun hc)
        (fun e he => ⟨(ha.2.1 e he).1, fun n hn => ⟨(ha.2.1 e he).2 n hn, ?_⟩⟩)
        (fun e he n hn => ⟨(ha.2.2.1 e he).2 n hn, ?_⟩)
      · rintro names ⟨⟩
        exact List.mem_append_left _ (mem_allReferenced.mpr ⟨e, he, hn⟩)
      · rintro names ⟨⟩
        exact List.mem_append_right _ (mem_allReferenced.mpr ⟨e, he, hn⟩)
  | join left right on how broadcast ihl ihr =>
      obtain ⟨lrows, hrunl, hrun⟩ := ExceptList.bind_eq_ok.mp hrun
      obtain ⟨rrows, hrunr, -⟩ := ExceptList.bind_eq_ok.mp hrun
      simp only [prune, ExceptList.bind_eq_ok] at h
      obtain ⟨l, hl, r, hr, left', hl', right', hr', h⟩ := h
      cases h
      have htl : left.TablesConform := ht.mono (List.subset_append_left _ _)
      have htr : right.TablesConform := ht.mono (List.subset_append_right _ _)
      refine hd.join (ihl ha.1 htl hd.1 hrunl hl') (ihr ha.2.1 htr hd.2.1 hrunr hr')
        (hdraws ha.1 htl hrunl hl') (hdraws ha.2.1 htr hrunr hr')
        (fun n hn => ⟨⟨(ha.2.2.2.2.1 n hn).1, ?_⟩, ⟨(ha.2.2.2.2.1 n hn).2, ?_⟩⟩)
      · rintro names ⟨⟩
        exact mem_joinSide (schema_names hl ▸ (ha.2.2.2.2.1 n hn).1) (Or.inl hn)
      · rintro names ⟨⟩
        exact mem_joinSide (schema_names hr ▸ (ha.2.2.2.2.1 n hn).2) (Or.inl hn)
  | sort child keys ih =>
      obtain ⟨crows, hrun, -⟩ := ExceptList.bind_eq_ok.mp hrun
      obtain ⟨child', hc, h⟩ := ExceptList.bind_eq_ok.mp h
      cases h
      refine hd.sort (ih ha.1 ht hd.1 hrun hc) (hdraws ha.1 ht hrun hc) (prune_keepsFields ha.1 hc)
        ha.1 (fun k hk n hn => ⟨(ha.2 k hk).2 n hn, fun names hnames => ?_⟩)
      obtain ⟨m, -, rfl⟩ := Option.map_eq_some_iff.mp hnames
      exact List.mem_append_right _ (mem_allReferenced.mpr ⟨k.1, List.mem_map_of_mem hk, hn⟩)

lemma collapseProject_distributable {child : LogicalPlan F} {columns : List (Expression F)}
    (hd : child.Distributable) : (collapseProject child columns).Distributable := by
  unfold collapseProject
  split
  · split <;> exact hd
  · exact hd

theorem eliminate_distributable (ha : plan.Analyzed) (ht : plan.TablesConform)
    (hd : plan.Distributable) (hrun : naiveRows plan = .ok rows) (h : eliminate plan = .ok plan') :
    plan'.Distributable := by
  have hrefines : ∀ {p p' : LogicalPlan F}, p.Analyzed → p.TablesConform →
      eliminate p = .ok p' → Refines p p' := by
    intro p p' ha ht h
    obtain ⟨q, hq, href⟩ := eliminate_refines ha ht
    obtain rfl := Except.ok.inj (hq.symm.trans h)
    exact href
  induction plan generalizing plan' rows with
  | scan _ _ _ => cases h; trivial
  | filter child condition ih =>
      obtain ⟨crows, hrun, -⟩ := ExceptList.bind_eq_ok.mp hrun
      obtain ⟨child', hc, h⟩ := ExceptList.bind_eq_ok.mp h
      have hd' := ih ha.1 ht hd hrun hc
      cases h
      exact hd'
  | project child columns ih =>
      obtain ⟨crows, hrun, -⟩ := ExceptList.bind_eq_ok.mp hrun
      obtain ⟨child', hc, h⟩ := ExceptList.bind_eq_ok.mp h
      have hd' := ih ha.1 ht hd hrun hc
      unfold eliminateProject at h
      split at h
      · obtain ⟨s, -, h⟩ := ExceptList.bind_eq_ok.mp h
        split at h <;> cases h
        · exact hd'
        · exact collapseProject_distributable hd'
      · cases h
        exact collapseProject_distributable hd'
  | aggregate child groupBy aggregates ih =>
      obtain ⟨crows, hrun, -⟩ := ExceptList.bind_eq_ok.mp hrun
      obtain ⟨child', hc, h⟩ := ExceptList.bind_eq_ok.mp h
      cases h
      exact hd.aggregate (ih ha.1 ht hd.1 hrun hc) (.of_simulates (hrefines ha.1 ht hc) hrun)
        ha.2.1 (fun e he => (ha.2.2.1 e he).2)
  | join left right on how broadcast ihl ihr =>
      obtain ⟨lrows, hrunl, hrun⟩ := ExceptList.bind_eq_ok.mp hrun
      obtain ⟨rrows, hrunr, -⟩ := ExceptList.bind_eq_ok.mp hrun
      obtain ⟨left', hl, h⟩ := ExceptList.bind_eq_ok.mp h
      obtain ⟨right', hr, h⟩ := ExceptList.bind_eq_ok.mp h
      cases h
      have htl : left.TablesConform := ht.mono (List.subset_append_left _ _)
      have htr : right.TablesConform := ht.mono (List.subset_append_right _ _)
      exact hd.join (ihl ha.1 htl hd.1 hrunl hl) (ihr ha.2.1 htr hd.2.1 hrunr hr)
        (.of_simulates (hrefines ha.1 htl hl) hrunl) (.of_simulates (hrefines ha.2.1 htr hr) hrunr)
        ha.2.2.2.2.1
  | sort child keys ih =>
      obtain ⟨crows, hrun, -⟩ := ExceptList.bind_eq_ok.mp hrun
      obtain ⟨child', hc, h⟩ := ExceptList.bind_eq_ok.mp h
      cases h
      exact hd.sort (ih ha.1 ht hd.1 hrun hc) (.of_simulates (hrefines ha.1 ht hc) hrun)
        (.of_schema (eliminate_schema ha.1 hc)) ha.1 (fun k hk => (ha.2 k hk).2)

end Rules

section Sources

namespace LogicalPlan

/-- The tables of a plan with their sources. -/
def scannedTables : LogicalPlan F → List (Dataset F × Option (ScanSource F))
  | .scan dataset _ source => [(dataset, source)]
  | .filter child _ => child.scannedTables
  | .project child _ => child.scannedTables
  | .aggregate child _ _ => child.scannedTables
  | .join left right _ _ _ => left.scannedTables ++ right.scannedTables
  | .sort child _ => child.scannedTables

lemma sourcesAnswer_iff {plan : LogicalPlan F} :
    plan.SourcesAnswer ↔ ∀ p ∈ plan.scannedTables, ∀ s ∈ p.2, s.Answers p.1 := by
  induction plan with
  | scan dataset sourceName source => simp [SourcesAnswer, scannedTables]
  | join left right on how broadcast ihl ihr =>
      simp [SourcesAnswer, scannedTables, ihl, ihr, or_imp, forall_and]
  | filter child _ ih | project child _ ih | aggregate child _ _ ih | sort child _ ih =>
      simpa [SourcesAnswer, scannedTables] using ih

lemma SourcesAnswer.of_scanned {plan plan' : LogicalPlan F} (h : plan.SourcesAnswer)
    (hs : plan'.scannedTables = plan.scannedTables) : plan'.SourcesAnswer := by
  rw [sourcesAnswer_iff] at *
  rwa [hs]

end LogicalPlan

open LogicalPlan

variable {plan plan' : LogicalPlan F}

omit [PyRuntime F] in
theorem mapExpressions_scanned {fn : Expression F → Py (Expression F)}
    (h : mapExpressions fn plan = .ok plan') : plan'.scannedTables = plan.scannedTables := by
  induction plan generalizing plan' with
  | scan _ _ _ => cases h; rfl
  | filter child _ ih | project child _ ih | sort child _ ih =>
      obtain ⟨child', hc, h⟩ := ExceptList.bind_eq_ok.mp h
      obtain ⟨e, -, h⟩ := ExceptList.bind_eq_ok.mp h
      cases h
      simp only [scannedTables, ih hc]
  | aggregate child _ _ ih =>
      obtain ⟨child', hc, h⟩ := ExceptList.bind_eq_ok.mp h
      obtain ⟨e, -, h⟩ := ExceptList.bind_eq_ok.mp h
      obtain ⟨e', -, h⟩ := ExceptList.bind_eq_ok.mp h
      cases h
      simp only [scannedTables, ih hc]
  | join left right _ _ _ ihl ihr =>
      obtain ⟨left', hl, h⟩ := ExceptList.bind_eq_ok.mp h
      obtain ⟨right', hr, h⟩ := ExceptList.bind_eq_ok.mp h
      cases h
      simp only [scannedTables, ihl hl, ihr hr]

lemma pushFilter_scanned {child : LogicalPlan F} {condition : Expression F}
    (h : pushFilter child condition = .ok plan') : plan'.scannedTables = child.scannedTables := by
  unfold pushFilter at h
  split at h
  · obtain ⟨s, -, h⟩ := ExceptList.bind_eq_ok.mp h
    split at h <;> cases h <;> rfl
  · obtain ⟨l, -, h⟩ := ExceptList.bind_eq_ok.mp h
    obtain ⟨r, -, h⟩ := ExceptList.bind_eq_ok.mp h
    split at h
    · cases h
      rfl
    · split at h <;> cases h <;> rfl
  · cases h
    rfl

theorem pushdown_scanned (h : pushdown plan = .ok plan') : plan'.scannedTables = plan.scannedTables := by
  induction plan generalizing plan' with
  | scan _ _ _ => cases h; rfl
  | filter child condition ih =>
      obtain ⟨child', hc, h⟩ := ExceptList.bind_eq_ok.mp h
      exact (pushFilter_scanned h).trans (ih hc)
  | project child _ ih | aggregate child _ _ ih | sort child _ ih =>
      obtain ⟨child', hc, h⟩ := ExceptList.bind_eq_ok.mp h
      cases h
      simp only [scannedTables, ih hc]
  | join left right _ _ _ ihl ihr =>
      obtain ⟨left', hl, h⟩ := ExceptList.bind_eq_ok.mp h
      obtain ⟨right', hr, h⟩ := ExceptList.bind_eq_ok.mp h
      cases h
      simp only [scannedTables, ihl hl, ihr hr]

theorem prune_scanned {needed : Option (List String)} (h : prune plan needed = .ok plan') :
    plan'.scannedTables = plan.scannedTables := by
  induction plan generalizing plan' needed with
  | scan _ _ _ =>
      cases h
      unfold pruneScan
      split
      · rfl
      · simp only
        split <;> rfl
  | filter child _ ih | project child _ ih | aggregate child _ _ ih | sort child _ ih =>
      obtain ⟨child', hc, h⟩ := ExceptList.bind_eq_ok.mp h
      cases h
      simp only [scannedTables, ih hc]
  | join left right _ _ _ ihl ihr =>
      simp only [prune, ExceptList.bind_eq_ok] at h
      obtain ⟨l, -, r, -, left', hl, right', hr, h⟩ := h
      cases h
      simp only [scannedTables, ihl hl, ihr hr]

theorem eliminate_scanned (h : eliminate plan = .ok plan') : plan'.scannedTables = plan.scannedTables := by
  have hcollapse : ∀ (child : LogicalPlan F) (columns : List (Expression F)),
      (collapseProject child columns).scannedTables = child.scannedTables := by
    intro child columns
    unfold collapseProject
    split
    · split <;> rfl
    · rfl
  induction plan generalizing plan' with
  | scan _ _ _ => cases h; rfl
  | filter child _ ih | aggregate child _ _ ih | sort child _ ih =>
      obtain ⟨child', hc, h⟩ := ExceptList.bind_eq_ok.mp h
      cases h
      simp only [scannedTables, ih hc]
  | project child columns ih =>
      obtain ⟨child', hc, h⟩ := ExceptList.bind_eq_ok.mp h
      rw [scannedTables, ← ih hc]
      unfold eliminateProject at h
      split at h
      · obtain ⟨s, -, h⟩ := ExceptList.bind_eq_ok.mp h
        split at h <;> cases h
        · rfl
        · exact hcollapse child' columns
      · cases h
        exact hcollapse child' columns
  | join left right _ _ _ ihl ihr =>
      obtain ⟨left', hl, h⟩ := ExceptList.bind_eq_ok.mp h
      obtain ⟨right', hr, h⟩ := ExceptList.bind_eq_ok.mp h
      cases h
      simp only [scannedTables, ihl hl, ihr hr]

end Sources

section Optimize

open LogicalPlan

/-- What the optimizer keeps of an accepted query. -/
structure Optimizes (plan plan' : LogicalPlan F) : Prop where
  names : plan.KeepsNames plan'
  schema : plan'.schema = plan.schema
  refines : Refines plan plan'
  scannedTables : plan'.scannedTables = plan.scannedTables
  distributable : ∀ rows, naiveRows plan = .ok rows → plan.Distributable → plan'.Distributable
  sorted : ∀ child keys, plan = .sort child keys → ∃ child', plan' = .sort child' keys

namespace Optimizes

theorem refl {plan : LogicalPlan F} (ha : plan.Analyzed) : Optimizes plan plan where
  names := .refl ha
  schema := rfl
  refines := .refl _ _
  scannedTables := rfl
  distributable _ _ h := h
  sorted child _ h := ⟨child, h⟩

theorem trans {p q r : LogicalPlan F} (h : Optimizes p q) (h' : Optimizes q r) : Optimizes p r where
  names := h.names.trans h'.names
  schema := h'.schema.trans h.schema
  refines := h.refines.trans h'.refines h.names.names
  scannedTables := h'.scannedTables.trans h.scannedTables
  distributable rows hrun hd := by
    obtain ⟨rows', hrun', -⟩ := h.refines rows hrun
    exact h'.distributable rows' hrun' (h.distributable rows hrun hd)
  sorted child keys hp := by
    obtain ⟨child', hq⟩ := h.sorted child keys hp
    exact h'.sorted child' keys hq

end Optimizes

lemma StepSafe.rewritesSafely_fold {plan : LogicalPlan F}
    (h : StepSafe .constantFolding plan) : RewritesSafely fold plan := by
  have hfold : ∀ e ∈ plan.conditions ++ plan.projected, ∃ e', fold e = .ok e' ∧ KeepsValue e e' := by
    intro e he
    obtain ⟨e', hfold, -⟩ := fold_ok (h e he)
    exact ⟨e', hfold, fun r v hv => (fold_evaluate hfold r).trans hv⟩
  refine ⟨fun e he => ?_, fun e he => ⟨hfold e (List.mem_append_right _ he), fun n => fold_column⟩⟩
  obtain ⟨e', hfe, hk⟩ := hfold e (List.mem_append_left _ he)
  exact ⟨e', hfe, hk.keepsTruth⟩

lemma StepSafe.rewritesSafely_simplify {plan : LogicalPlan F}
    (h : StepSafe .filterSimplification plan) :
    RewritesSafely (fun e => pure (simplifyBool e)) plan := by
  refine ⟨fun e he => ⟨_, rfl, fun r v hv => ?_⟩, fun e he => ⟨⟨_, rfl, fun r v hv => ?_⟩, ?_⟩⟩
  · obtain ⟨v', hv', htruth, -⟩ := simplifyBool_evaluate (h.1 e he) hv
    exact ⟨v', hv', htruth⟩
  · obtain ⟨v', hv', -, heq⟩ := simplifyBool_evaluate (h.2 e he) hv
    exact heq rfl ▸ hv'
  · exact keepsColumn_simplifyBool (h.2 e he)

/-- A rule applied to a sort is applied below it. -/
theorem Rule.sorted {rule : Rule} {child plan' : LogicalPlan F} {keys : List (Expression F × Bool)}
    (ha : (LogicalPlan.sort child keys).Analyzed) (h : rule.apply (.sort child keys) = .ok plan') :
    ∃ child', plan' = .sort child' keys := by
  have hkeys : ∀ {fn : Expression F → Py (Expression F)}, RewritesInPlace fn →
      mapExpressions fn (.sort child keys) = .ok plan' → ∃ child', plan' = .sort child' keys := by
    intro fn hfn h
    obtain ⟨child', -, h⟩ := ExceptList.bind_eq_ok.mp h
    obtain ⟨keys', hks, h⟩ := ExceptList.bind_eq_ok.mp h
    cases h
    have hfixed : keys.mapM (fun k => do
        let e ← fn k.1
        pure (e, k.2)) = .ok keys := by
      rw [ExceptList.mapM_eq_ok, List.forall₂_same]
      exact fun k hk => by simp [hfn.settled k.1 (settled_column (ha.2 k hk).1)]
    exact ⟨child', congrArg _ (Except.ok.inj (hks.symm.trans hfixed))⟩
  cases rule with
  | constantFolding => exact hkeys rewritesInPlace_fold h
  | filterSimplification => exact hkeys rewritesInPlace_simplifyBool h
  | predicatePushdown | projectionPruning | redundantProjectionElimination =>
      obtain ⟨child', -, h⟩ := ExceptList.bind_eq_ok.mp h
      cases h
      exact ⟨child', rfl⟩

/-- A safe step of the optimizer. -/
theorem Rule.optimizes {rule : Rule} {plan plan' : LogicalPlan F} (ha : plan.Analyzed)
    (hs : plan.NamesSettled) (ht : plan.TablesConform) (hsafe : StepSafe rule plan)
    (h : rule.apply plan = .ok plan') : Optimizes plan plan' := by
  refine ⟨Rule.keepsNames ha hs h, Rule.schema ha hs hsafe h, ?_, ?_, fun rows hrun hd => ?_, ?_⟩
  · obtain ⟨p, hp, href⟩ := Rule.refines ha hs ht hsafe
    obtain rfl := Except.ok.inj (hp.symm.trans h)
    exact href
  · cases rule with
    | constantFolding | filterSimplification => exact mapExpressions_scanned h
    | predicatePushdown => exact pushdown_scanned h
    | projectionPruning => exact prune_scanned h
    | redundantProjectionElimination => exact eliminate_scanned h
  · cases rule with
    | constantFolding =>
        exact rewritesInPlace_fold.distributable ha hs ht hsafe.rewritesSafely_fold hd hrun h
    | filterSimplification =>
        exact rewritesInPlace_simplifyBool.distributable ha hs ht hsafe.rewritesSafely_simplify hd
          hrun h
    | predicatePushdown => exact pushdown_distributable ha ht hsafe hd hrun h
    | projectionPruning => exact prune_distributable ha ht hd hrun h
    | redundantProjectionElimination => exact eliminate_distributable ha ht hd hrun h
  · rintro child keys rfl
    exact Rule.sorted ha h

theorem applyRules_optimizes {rules : List Rule} {plan : LogicalPlan F} (ha : plan.Analyzed)
    (hs : plan.NamesSettled) (ht : plan.TablesConform) (hsafe : RoundSafe rules plan) :
    ∃ plan', applyRules rules plan = .ok plan' ∧ Optimizes plan plan' := by
  induction rules generalizing plan with
  | nil => exact ⟨plan, rfl, .refl ha⟩
  | cons rule rules ih =>
      obtain ⟨mid, hmid, -⟩ := Rule.refines ha hs ht hsafe.1
      have hstep := Rule.optimizes ha hs ht hsafe.1 hmid
      obtain ⟨plan', hp, hrest⟩ := ih hstep.names.analyzed (hstep.names.settled hs)
        (ht.mono hstep.names.tables) (hsafe.2 mid hmid)
      refine ⟨plan', ?_, hstep.trans hrest⟩
      rw [applyRules, List.foldlM_cons, hmid]
      exact hp

/-- A run of the optimizer whose steps are all safe. -/
theorem optimizeLoop_optimizes {rules : List Rule} {n : ℕ} {plan : LogicalPlan F}
    (ha : plan.Analyzed) (hs : plan.NamesSettled) (ht : plan.TablesConform)
    (hsafe : LoopSafe rules n plan) :
    ∃ plan', optimizeLoop rules n plan = .ok plan' ∧ Optimizes plan plan' := by
  induction n generalizing plan with
  | zero => exact ⟨plan, rfl, .refl ha⟩
  | succ n ih =>
      obtain ⟨mid, hmid, hround⟩ := applyRules_optimizes ha hs ht hsafe.2.1
      obtain ⟨hprints, hlater⟩ := hsafe.2.2 mid hmid
      obtain ⟨-, hlast⟩ | ⟨hne, hnext⟩ := optimizeLoop_step n hsafe.1 hmid hprints
      · exact ⟨mid, hlast, hround⟩
      · obtain ⟨plan', hp, hrest⟩ := ih hround.names.analyzed (hround.names.settled hs)
          (ht.mono hround.names.tables) (hlater hne)
        exact ⟨plan', hnext.trans hp, hround.trans hrest⟩

/-- In every run of the optimizer whose steps are all safe, whichever rules are configured, the
optimized query has the schema, the rows, the tables and the final sort of the query. -/
theorem optimize_keeps_query {config : OptimizerConfig} {plan analyzed : LogicalPlan F}
    (ha : analyze plan = .ok analyzed) (ht : plan.TablesConform) (hs : plan.NamesSettled)
    (hsafe : LoopSafe (defaultRules config) defaultMaxIterations plan) :
    ∃ plan', optimize (defaultRules config) plan = .ok plan' ∧ plan'.schema = plan.schema ∧
      plan'.scannedTables = plan.scannedTables ∧
      (∀ child keys, plan = .sort child keys → ∃ child', plan' = .sort child' keys) ∧
      ∀ rows, naiveRows plan = .ok rows →
        ∃ rows', naiveRows plan' = .ok rows' ∧ EqualRows rows rows' := by
  have hplan := analyzed_of_analyze ha
  obtain ⟨plan', hp, hopt⟩ := optimizeLoop_optimizes hplan hs ht hsafe
  exact ⟨plan', hp, hopt.schema, hopt.scannedTables, hopt.sorted,
    fun rows hrun => hopt.refines.equalRows hplan ht hopt.names hrun⟩

end Optimize

section Examples

/-- A table filtered by a condition with literals to fold, and sorted. -/
def filteredSort (table : LogicalPlan ℚ) (condition : Expression ℚ) : LogicalPlan ℚ :=
  .sort (.filter table condition) [(.column "a", false)]

lemma filteredSort_round (dataset : Dataset ℚ) (sourceName : String)
    (source : Option (ScanSource ℚ)) {e : Expression ℚ}
    (he : FoldSafe e) (hf : fold e = .ok aAbove) :
    RoundSafe (defaultRules {}) (filteredSort (.scan dataset sourceName source) e) ∧
      applyRules (defaultRules {}) (filteredSort (.scan dataset sourceName source) e) =
        .ok (filteredSort (.scan dataset sourceName source) aAbove) := by
  have hfold : Rule.constantFolding.apply (filteredSort (.scan dataset sourceName source) e) =
      .ok (filteredSort (.scan dataset sourceName source) aAbove) := by
    simp only [Rule.apply, filteredSort, mapExpressions, ExceptList.pure_eq_ok, ExceptList.bind_ok, hf]
    rfl
  refine ⟨.cons ?_ hfold (.cons ⟨?_, ?_⟩ rfl (.cons trivial rfl
    (.cons trivial rfl (.cons trivial rfl trivial)))), ?_⟩
  · simpa [StepSafe, filteredSort, LogicalPlan.conditions, LogicalPlan.projected] using he
  · simp [filteredSort, aAbove, LogicalPlan.conditions, SimplifySafe]
  · simp [filteredSort, LogicalPlan.projected]
  · rw [applyRules, defaultRules, List.append_assoc]
    simp only [List.cons_append, List.foldlM_cons, hfold]
    rfl

lemma filteredSort_explains (dataset : Dataset ℚ) (sourceName : String)
    (source : Option (ScanSource ℚ)) {e : Expression ℚ} (he : e.prints = true) :
    (filteredSort (.scan dataset sourceName source) e).Explains :=
  ⟨⟨trivial, he⟩, List.forall_mem_singleton.mpr rfl⟩

lemma filteredSort_safe (dataset : Dataset ℚ) (sourceName : String)
    (source : Option (ScanSource ℚ)) :
    LoopSafe (defaultRules {}) defaultMaxIterations
      (filteredSort (.scan dataset sourceName source) aAboveTwenty) := by
  have hfirst := filteredSort_round dataset sourceName source (e := aAboveTwenty)
    ⟨trivial, ⟨trivial, trivial, fun _ => ⟨.int 20, rfl⟩⟩, fun h => h.1.elim⟩ rfl
  have hnext := filteredSort_round dataset sourceName source (e := aAbove)
    ⟨trivial, trivial, fun h => h.1.elim⟩ rfl
  have hprints := filteredSort_explains dataset sourceName source (e := aAboveTwenty) (by decide)
  have hprints' := filteredSort_explains dataset sourceName source (e := aAbove) (by decide)
  exact .succ hprints hfirst.1 hfirst.2 hprints'
    (fun _ => .succ hprints' hnext.1 hnext.2 hprints' (fun h => absurd rfl h))

lemma filteredSort_optimized (dataset : Dataset ℚ) (sourceName : String)
    (source : Option (ScanSource ℚ)) :
    optimize (defaultRules {}) (filteredSort (.scan dataset sourceName source) aAboveTwenty) =
      .ok (filteredSort (.scan dataset sourceName source) aAbove) := by
  have hfirst := (filteredSort_round dataset sourceName source (e := aAboveTwenty)
    ⟨trivial, ⟨trivial, trivial, fun _ => ⟨.int 20, rfl⟩⟩, fun h => h.1.elim⟩ rfl).2
  have hnext := (filteredSort_round dataset sourceName source (e := aAbove)
    ⟨trivial, trivial, fun h => h.1.elim⟩ rfl).2
  have hprints := filteredSort_explains dataset sourceName source (e := aAboveTwenty) (by decide)
  have hprints' := filteredSort_explains dataset sourceName source (e := aAbove) (by decide)
  rw [optimize, defaultMaxIterations]
  obtain ⟨-, hlast⟩ | ⟨-, hstep⟩ := optimizeLoop_step 9 hprints hfirst hprints'
  · exact hlast
  · obtain ⟨-, hlast⟩ | ⟨hne, -⟩ := optimizeLoop_step 8 hprints' hnext hprints'
    · exact hstep.trans hlast
    · exact absurd rfl hne

theorem optimize_keeps_query_filteredSort : ∃ plan',
    optimize (defaultRules {}) (filteredSort abTable aAboveTwenty) = .ok plan' ∧
      plan'.schema = (filteredSort abTable aAboveTwenty).schema ∧
      plan'.scannedTables = (filteredSort abTable aAboveTwenty).scannedTables ∧
      (∀ child keys, filteredSort abTable aAboveTwenty = .sort child keys →
        ∃ child', plan' = .sort child' keys) ∧
      ∀ rows, naiveRows (filteredSort abTable aAboveTwenty) = .ok rows →
        ∃ rows', naiveRows plan' = .ok rows' ∧ EqualRows rows rows' :=
  have hanalyzed : analyze (filteredSort abTable aAboveTwenty) =
      .ok (filteredSort abTable aAboveTwenty) := rfl
  optimize_keeps_query hanalyzed (abTable_conforms rfl) trivial (filteredSort_safe _ _ none)

end Examples

end MiniSpark
