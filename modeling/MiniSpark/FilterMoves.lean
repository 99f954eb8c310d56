import Mathlib.Data.List.TakeWhile
import MiniSpark.FilterPlaces

/-!
# The rules keep the places of the filters safe

Moving filters, pruning columns and dropping projections leave the places that the
filters can come to as safe as they were, and so does rewriting the expressions, as
long as what each condition comes to stands for what it came to before.
-/
namespace MiniSpark

variable {F : Type} [PyRuntime F]

section Pushed

variable {child plan plan' : LogicalPlan F} {condition : Expression F}
  {conditions : List (Expression F)}

lemma sinking_congr {p p' : LogicalPlan F} (h : p'.ground.outputNames = p.ground.outputNames)
    (conditions : List (Expression F)) : sinking p' conditions = sinking p conditions := by
  simp only [sinking, h]

lemma sinking_cons {p : LogicalPlan F} (h : condition.referencedColumns ⊆ p.ground.outputNames) :
    sinking p (condition :: conditions) = condition :: sinking p conditions := by
  rw [sinking, List.takeWhile_cons_of_pos (by simpa using h), sinking]

lemma pushFilter_ground (h : pushFilter child condition = .ok plan') :
    plan'.ground.outputNames = child.ground.outputNames := by
  unfold pushFilter at h
  split at h
  · obtain ⟨s, -, h⟩ := ExceptList.bind_eq_ok.mp h
    split at h <;> cases h
    · simp only [LogicalPlan.ground]
      split <;> rfl
    · rfl
  · obtain ⟨l, -, h⟩ := ExceptList.bind_eq_ok.mp h
    obtain ⟨r, -, h⟩ := ExceptList.bind_eq_ok.mp h
    split at h
    · cases h
      rfl
    · split at h <;> cases h <;> rfl
  · cases h
    rfl

lemma pushdown_ground (ha : plan.Analyzed) (h : pushdown plan = .ok plan') :
    plan'.ground.outputNames = plan.ground.outputNames := by
  induction plan generalizing plan' with
  | scan _ _ _ => cases h; rfl
  | filter child condition ih =>
      obtain ⟨child', hc, h⟩ := ExceptList.bind_eq_ok.mp h
      exact (pushFilter_ground h).trans (ih ha.1 hc)
  | project child columns ih =>
      obtain ⟨child', hc, h⟩ := ExceptList.bind_eq_ok.mp h
      have hchild := ih ha.1 hc
      cases h
      simp only [LogicalPlan.ground]
      split
      · exact hchild
      · rfl
  | aggregate child groupBy aggregates ih =>
      obtain ⟨child', -, h⟩ := ExceptList.bind_eq_ok.mp h
      cases h
      rfl
  | join left right on how broadcast ihl ihr =>
      have hk := pushdown_keepsNames ha h
      obtain ⟨left', -, h⟩ := ExceptList.bind_eq_ok.mp h
      obtain ⟨right', -, h⟩ := ExceptList.bind_eq_ok.mp h
      cases h
      exact hk.names
  | sort child keys ih =>
      have hk := pushdown_keepsNames ha h
      obtain ⟨child', -, h⟩ := ExceptList.bind_eq_ok.mp h
      cases h
      exact hk.names

lemma toLeft_congr (left left' right right' : LogicalPlan F)
    (hl : left'.outputNames = left.outputNames) (hr : right'.outputNames = right.outputNames)
    (conditions : List (Expression F)) :
    toLeft left' right' conditions = toLeft left right conditions := by
  induction conditions with
  | nil => rfl
  | cons c cs ih => simp only [toLeft, hl, hr, ih]

lemma toRight_congr (left left' right right' : LogicalPlan F)
    (hl : left'.outputNames = left.outputNames) (hr : right'.outputNames = right.outputNames)
    (conditions : List (Expression F)) :
    toRight left' right' conditions = toRight left right conditions := by
  induction conditions with
  | nil => rfl
  | cons c cs ih => simp only [toRight, hl, hr, ih]

lemma PlacesSafe.pushFilter (ha : child.Analyzed)
    (h : MiniSpark.pushFilter child condition = .ok plan')
    (hp : PlacesSafe id child (condition :: conditions)) : PlacesSafe id plan' conditions := by
  unfold MiniSpark.pushFilter at h
  split at h
  · next grandchild columns =>
      obtain ⟨s, hs, h⟩ := ExceptList.bind_eq_ok.mp h
      split at h <;> cases h
      · next hsub =>
          rw [LogicalPlan.schema_names hs] at hsub
          have hcons : sinking grandchild (condition :: conditions) =
              condition :: sinking grandchild conditions :=
            sinking_cons (List.Subset.trans hsub (outputNames_subset_ground ha.1))
          rw [PlacesSafe, hcons] at hp
          exact ⟨fun c hc => hp.1 c (List.mem_cons_of_mem _ hc), hp.2⟩
      · exact hp
  · next left right on how broadcast =>
      obtain ⟨l, hl, h⟩ := ExceptList.bind_eq_ok.mp h
      obtain ⟨r, hr, h⟩ := ExceptList.bind_eq_ok.mp h
      rw [LogicalPlan.schema_names hl, LogicalPlan.schema_names hr] at h
      have hsides := hp
      rw [PlacesSafe, SafeBelowJoin, toLeft, toRight] at hsides
      split at h
      · next hsub =>
          cases h
          simp only [if_pos hsub] at hsides
          have hleft : toLeft (.filter left condition) right conditions =
              toLeft left right conditions :=
            toLeft_congr left (.filter left condition) right right rfl rfl conditions
          have hright : toRight (.filter left condition) right conditions =
              toRight left right conditions :=
            toRight_congr left (.filter left condition) right right rfl rfl conditions
          rw [PlacesSafe, hleft, hright]
          exact ⟨hsides.1.2, hsides.2.1, hsides.2.2⟩
      · next hnot =>
          simp only [if_neg hnot] at hsides
          split at h
          · next hsub =>
              cases h
              simp only [if_pos hsub] at hsides
              have hleft : toLeft left (.filter right condition) conditions =
                  toLeft left right conditions :=
                toLeft_congr left left right (.filter right condition) rfl rfl conditions
              have hright : toRight left (.filter right condition) conditions =
                  toRight left right conditions :=
                toRight_congr left left right (.filter right condition) rfl rfl conditions
              rw [PlacesSafe, hleft, hright]
              exact ⟨(hsides.1 hsub).2.2, hsides.2.1, hsides.2.2⟩
          · cases h
            exact hp
  · cases h
    exact hp

/-- Moving filters down leaves their places safe. -/
theorem PlacesSafe.pushdown (ha : plan.Analyzed) (ht : plan.TablesConform) (hrun : plan.Runs)
    (h : MiniSpark.pushdown plan = .ok plan') (hp : PlacesSafe id plan conditions) :
    PlacesSafe id plan' conditions := by
  induction plan generalizing plan' conditions with
  | scan _ _ _ => cases h; trivial
  | filter child condition ih =>
      obtain ⟨child', hc, h⟩ := ExceptList.bind_eq_ok.mp h
      have hk := pushdown_keepsNames ha.1 hc
      exact PlacesSafe.pushFilter hk.analyzed h (ih ha.1 ht hrun.filter_child hc hp)
  | project child columns ih =>
      obtain ⟨child', hc, h⟩ := ExceptList.bind_eq_ok.mp h
      have hchild := ih ha.1 ht hrun.project_child hc hp.2
      have hground := pushdown_ground ha.1 hc
      cases h
      rw [PlacesSafe, sinking_congr hground]
      exact ⟨hp.1, hchild⟩
  | aggregate child groupBy aggregates ih =>
      obtain ⟨child', hc, h⟩ := ExceptList.bind_eq_ok.mp h
      have hchild := ih ha.1 ht hrun.aggregate_child hc hp
      cases h
      exact hchild
  | join left right on how broadcast ihl ihr =>
      obtain ⟨left', hl, h⟩ := ExceptList.bind_eq_ok.mp h
      obtain ⟨right', hr, h⟩ := ExceptList.bind_eq_ok.mp h
      cases h
      obtain ⟨hrl, hrr⟩ := hrun.join_sides
      have htl : left.TablesConform := ht.mono (List.subset_append_left _ _)
      have htr : right.TablesConform := ht.mono (List.subset_append_right _ _)
      have hshown : ∀ {side side' : LogicalPlan F} {cs : List (Expression F)}, side.Analyzed →
          side.TablesConform → side.Runs → MiniSpark.pushdown side = .ok side' →
          PlacesSafe id side cs → SideShown (· ∈ side.outputNames) side side' conditions := by
        intro side side' cs ha ht hrun hside hp
        have href := Refines.of_ok (pushdown_refines ha ht (hp.alone.chainSafe ha hrun)) hside
        exact .of_refines hrun href (pushdown_keepsNames ha hside) conditions
      have hsl := hshown ha.1 htl hrl hl hp.2.1
      have hsr := hshown ha.2.1 htr hrr hr hp.2.2
      refine hp.join_shown (replaces_same conditions) (fun n hn => ha.2.2.2.2.1 n hn) hsl hsr ?_ ?_
      · rw [toLeft_eq hsl hsr]
        exact ihl ha.1 htl hrl hl hp.2.1
      · rw [toRight_eq hsl hsr]
        exact ihr ha.2.1 htr hrr hr hp.2.2
  | sort child keys ih =>
      obtain ⟨child', hc, h⟩ := ExceptList.bind_eq_ok.mp h
      have hchild := ih ha.1 ht hrun.sort_child hc hp
      cases h
      exact hchild

end Pushed

section Pruned

open LogicalPlan

variable {plan plan' : LogicalPlan F} {needed : Option (List String)}
  {conditions : List (Expression F)}

omit [PyRuntime F] in
lemma pruneScan_ground (dataset : Dataset F) (sourceName : String)
    (source : Option (ScanSource F)) :
    (pruneScan dataset sourceName source needed).ground = .scan dataset sourceName source := by
  unfold pruneScan
  split
  · rfl
  · simp only
    split
    · rw [LogicalPlan.ground, if_pos (Option.isSome_iff_exists.mpr
        ⟨_, columnNames?_eq_some.mpr rfl⟩)]
      rfl
    · rfl

lemma prune_ground (ha : plan.Analyzed) (h : prune plan needed = .ok plan') :
    plan'.ground.outputNames ⊆ plan.ground.outputNames := by
  induction plan generalizing plan' needed with
  | scan dataset sourceName source =>
      cases h
      rw [pruneScan_ground]
      exact List.Subset.refl _
  | filter child condition ih =>
      obtain ⟨child', hc, h⟩ := ExceptList.bind_eq_ok.mp h
      have hchild := ih ha.1 hc
      cases h
      exact hchild
  | project child columns ih =>
      obtain ⟨child', hc, h⟩ := ExceptList.bind_eq_ok.mp h
      have hchild := ih ha.1 hc
      cases h
      simp only [LogicalPlan.ground]
      split
      · exact hchild
      · exact List.Subset.refl _
  | aggregate child groupBy aggregates ih =>
      obtain ⟨child', -, h⟩ := ExceptList.bind_eq_ok.mp h
      cases h
      exact List.Subset.refl _
  | join left right on how broadcast ihl ihr =>
      have hk := prune_prunedTo ha h
      simp only [prune, ExceptList.bind_eq_ok] at h
      obtain ⟨l, -, r, -, left', -, right', -, h⟩ := h
      cases h
      exact hk.names.subset
  | sort child keys ih =>
      have hk := prune_prunedTo ha h
      obtain ⟨child', -, h⟩ := ExceptList.bind_eq_ok.mp h
      cases h
      exact hk.names.subset

/-- With fewer columns below fewer conditions can come there. -/
lemma sinking_of_subset {p p' : LogicalPlan F} (h : p'.ground.outputNames ⊆ p.ground.outputNames)
    (conditions : List (Expression F)) :
    ∃ es, sinking p conditions = sinking p' conditions ++ es := by
  induction conditions with
  | nil => exact ⟨[], rfl⟩
  | cons c cs ih =>
      obtain ⟨es, hes⟩ := ih
      by_cases hc : c.referencedColumns ⊆ p'.ground.outputNames
      · exact ⟨es, by rw [sinking_cons hc, sinking_cons (List.Subset.trans hc h), hes]; rfl⟩
      · have hnil : sinking p' (c :: cs) = [] := List.takeWhile_cons_of_neg (by simpa using hc)
        exact ⟨_, by rw [hnil, List.nil_append]⟩

/-- What passes a projection is provided below it. -/
lemma PassesThrough.referenced {columns : List (Expression F)} {c : Expression F}
    (h : PassesThrough columns c) : c.referencedColumns ⊆ allReferenced columns := by
  intro n hn
  obtain ⟨e, he, -, hcol⟩ := h n hn
  refine mem_allReferenced.mpr ⟨e, he, ?_⟩
  rw [← Expression.referencedColumns_unalias, hcol]
  exact List.mem_singleton_self n

lemma PassesThrough.provides {child : LogicalPlan F} {columns : List (Expression F)}
    {c : Expression F} (h : PassesThrough columns c)
    (ha : (LogicalPlan.project child columns).Analyzed) : child.Provides c := by
  intro n hn
  obtain ⟨e, he, hne⟩ := mem_allReferenced.mp (h.referenced hn)
  exact ha.2.1 e he n hne

/-- Nothing above the conditions has ruled their columns out. -/
def AllNeeded (plan : LogicalPlan F) (needed : Option (List String))
    (conditions : List (Expression F)) : Prop :=
  ∀ c ∈ conditions, plan.Provides c ∧ ∀ n ∈ c.referencedColumns, Needed needed n

/-- Pruning leaves the places of the filters safe. -/
theorem PlacesSafe.prune (ha : plan.Analyzed) (ht : plan.TablesConform) (hrun : plan.Runs)
    (h : MiniSpark.prune plan needed = .ok plan') (hneed : AllNeeded plan needed conditions)
    (hp : PlacesSafe id plan conditions) : PlacesSafe id plan' conditions := by
  induction plan generalizing plan' needed conditions with
  | scan dataset sourceName source =>
      cases h
      unfold pruneScan
      split
      · trivial
      · next names =>
          simp only
          split
          · refine ⟨fun c hc n hn => ⟨.column n, List.mem_map_of_mem ?_, rfl, rfl⟩, trivial⟩
            obtain ⟨hprovides, hneeded⟩ := hneed c ((List.takeWhile_sublist _).subset hc)
            exact List.mem_filter.mpr ⟨hprovides n hn, by simpa using hneeded n hn names rfl⟩
          · trivial
  | filter child condition ih =>
      obtain ⟨child', hc, h⟩ := ExceptList.bind_eq_ok.mp h
      have hall : AllNeeded child (needed.map (fun n => n ++ condition.referencedColumns))
          (condition :: conditions) := by
        refine List.forall_mem_cons.mpr ⟨⟨ha.2, fun n hn names hnames => ?_⟩,
          fun c hcs => ⟨(hneed c hcs).1, fun n hn => needed_mono ((hneed c hcs).2 n hn)⟩⟩
        obtain ⟨m, -, rfl⟩ := Option.map_eq_some_iff.mp hnames
        exact List.mem_append_right _ hn
      have hchild := ih ha.1 ht hrun.filter_child hc hall hp
      cases h
      exact hchild
  | project child columns ih =>
      obtain ⟨child', hc, h⟩ := ExceptList.bind_eq_ok.mp h
      obtain ⟨es, hes⟩ := sinking_of_subset (prune_ground ha.1 hc) conditions
      cases h
      rw [PlacesSafe, hes] at hp
      have hpass : ∀ c ∈ sinking child' conditions, PassesThrough columns c :=
        fun c hcs => hp.1 c (List.mem_append_left _ hcs)
      refine ⟨hpass, ih ha.1 ht hrun.project_child hc (fun c hcs => ?_) (hp.2.of_append es)⟩
      refine ⟨(hpass c hcs).provides ha, fun n hn names hnames => ?_⟩
      cases hnames
      exact (hpass c hcs).referenced hn
  | aggregate child groupBy aggregates ih =>
      obtain ⟨child', hc, h⟩ := ExceptList.bind_eq_ok.mp h
      have hchild : PlacesSafe id child' [] :=
        ih ha.1 ht hrun.aggregate_child hc (List.forall_mem_nil _) hp
      cases h
      exact hchild
  | join left right on how broadcast ihl ihr =>
      simp only [MiniSpark.prune, ExceptList.bind_eq_ok] at h
      obtain ⟨l, hls, r, hrs, left', hl, right', hr, h⟩ := h
      cases h
      rw [LogicalPlan.schema_names hls] at hl
      rw [LogicalPlan.schema_names hrs] at hr
      obtain ⟨hrl, hrr⟩ := hrun.join_sides
      obtain ⟨hal, har, -, -, hon, -⟩ := id ha
      have htl : left.TablesConform := ht.mono (List.subset_append_left _ _)
      have htr : right.TablesConform := ht.mono (List.subset_append_right _ _)
      -- what a side shows above the join is what is needed there
      have hshown : ∀ {side side' : LogicalPlan F}, side.Analyzed → side.TablesConform → side.Runs →
          MiniSpark.prune side (some (joinSide needed on side.outputNames)) = .ok side' →
          SideShown (fun n => n ∈ side.outputNames ∧
            Needed (some (joinSide needed on side.outputNames)) n) side side' conditions := by
        intro side side' ha ht hrun hside
        obtain ⟨q, hq, hsim⟩ := prune_simulates ha ht (some (joinSide needed on side.outputNames))
        rw [hside, Except.ok.injEq] at hq
        have hk := prune_prunedTo ha hside
        have hin : ∀ c ∈ conditions, ∀ n ∈ c.referencedColumns, n ∈ side.outputNames →
            Needed (some (joinSide needed on side.outputNames)) n := by
          rintro c hcs n hn hside names ⟨⟩
          exact mem_joinSide hside (Or.inr ((hneed c hcs).2 n hn))
        exact ⟨.of_simulates hrun (hq ▸ hsim), hk.names.subset, fun c hcs n hn hmem =>
          ⟨⟨hmem, hin c hcs n hn hmem⟩, hk.keeps n hmem (hin c hcs n hn hmem)⟩⟩
      have hsl := hshown hal htl hrl hl
      have hsr := hshown har htr hrr hr
      have hsides : ∀ n ∈ on, (n ∈ left.outputNames ∧
          Needed (some (joinSide needed on left.outputNames)) n) ∧ n ∈ right.outputNames ∧
            Needed (some (joinSide needed on right.outputNames)) n := by
        refine fun n hn => ⟨⟨(hon n hn).1, ?_⟩, (hon n hn).2, ?_⟩ <;> rintro names ⟨⟩
        · exact mem_joinSide (hon n hn).1 (Or.inl hn)
        · exact mem_joinSide (hon n hn).2 (Or.inl hn)
      refine hp.join_shown (replaces_same conditions) hsides hsl hsr ?_ ?_
      · rw [toLeft_eq hsl hsr]
        refine ihl hal htl hrl hl (fun c hcs => ?_) hp.2.1
        obtain ⟨hmem, hsub⟩ := mem_toLeft hcs
        exact ⟨fun n hn => hsub hn, fun n hn => by
          rintro names ⟨⟩
          exact mem_joinSide (hsub hn) (Or.inr ((hneed c hmem).2 n hn))⟩
      · rw [toRight_eq hsl hsr]
        refine ihr har htr hrr hr (fun c hcs => ?_) hp.2.2
        obtain ⟨hmem, hsub⟩ := mem_toRight hcs
        exact ⟨fun n hn => hsub hn, fun n hn => by
          rintro names ⟨⟩
          exact mem_joinSide (hsub hn) (Or.inr ((hneed c hmem).2 n hn))⟩
  | sort child keys ih =>
      obtain ⟨child', hc, h⟩ := ExceptList.bind_eq_ok.mp h
      have hchild : PlacesSafe id child' [] :=
        ih ha.1 ht hrun.sort_child hc (List.forall_mem_nil _) hp
      cases h
      exact hchild

end Pruned

section Eliminated

open LogicalPlan

variable {child plan plan' : LogicalPlan F} {columns : List (Expression F)}
  {conditions : List (Expression F)}

lemma collapseProject_ground :
    (collapseProject child columns).ground.outputNames =
      (LogicalPlan.project child columns).ground.outputNames := by
  unfold collapseProject
  split
  · next grandchild inner =>
      split
      · next hplain =>
          simp only [LogicalPlan.ground, if_pos hplain]
          split <;> rfl
      · rfl
  · rfl

lemma eliminateProject_ground (h : eliminateProject child columns = .ok plan') :
    plan'.ground.outputNames = (LogicalPlan.project child columns).ground.outputNames := by
  unfold eliminateProject at h
  split at h
  · next names hnames =>
      obtain ⟨s, -, h⟩ := ExceptList.bind_eq_ok.mp h
      split at h <;> cases h
      · rw [LogicalPlan.ground, if_pos (Option.isSome_iff_exists.mpr ⟨names, hnames⟩)]
      · exact collapseProject_ground
  · cases h
    exact collapseProject_ground

lemma eliminate_ground (ha : plan.Analyzed) (h : eliminate plan = .ok plan') :
    plan'.ground.outputNames = plan.ground.outputNames := by
  induction plan generalizing plan' with
  | scan _ _ _ => cases h; rfl
  | filter child condition ih =>
      obtain ⟨child', hc, h⟩ := ExceptList.bind_eq_ok.mp h
      have hchild := ih ha.1 hc
      cases h
      exact hchild
  | project child columns ih =>
      obtain ⟨child', hc, h⟩ := ExceptList.bind_eq_ok.mp h
      have hchild := ih ha.1 hc
      rw [eliminateProject_ground h]
      simp only [LogicalPlan.ground]
      split
      · exact hchild
      · rfl
  | aggregate child groupBy aggregates ih =>
      obtain ⟨child', -, h⟩ := ExceptList.bind_eq_ok.mp h
      cases h
      rfl
  | join left right on how broadcast ihl ihr =>
      have hk := eliminate_keepsNames ha h
      obtain ⟨left', -, h⟩ := ExceptList.bind_eq_ok.mp h
      obtain ⟨right', -, h⟩ := ExceptList.bind_eq_ok.mp h
      cases h
      exact hk.names
  | sort child keys ih =>
      have hk := eliminate_keepsNames ha h
      obtain ⟨child', -, h⟩ := ExceptList.bind_eq_ok.mp h
      cases h
      exact hk.names

lemma sinking_sinking (p : LogicalPlan F) (conditions : List (Expression F)) :
    sinking p (sinking p conditions) = sinking p conditions :=
  List.takeWhile_idem

/-- Dropping a projection to plain columns leaves the places of the filters safe. -/
lemma PlacesSafe.collapseProject (hp : PlacesSafe id (.project child columns) conditions) :
    PlacesSafe id (MiniSpark.collapseProject child columns) conditions := by
  unfold MiniSpark.collapseProject
  split
  · next grandchild inner =>
      split
      · next hplain =>
          have hsink : ∀ cs : List (Expression F),
              sinking (.project grandchild inner) cs = sinking grandchild cs := by
            intro cs
            rw [sinking, LogicalPlan.ground, if_pos hplain, sinking]
          rw [PlacesSafe, hsink, PlacesSafe, sinking_sinking] at hp
          exact ⟨hp.1, hp.2.2⟩
      · exact hp
  · exact hp

lemma PlacesSafe.eliminateProject (ha : (LogicalPlan.project child columns).Analyzed)
    (h : MiniSpark.eliminateProject child columns = .ok plan')
    (hprov : ∀ c ∈ conditions, (LogicalPlan.project child columns).Provides c)
    (hp : PlacesSafe id (.project child columns) conditions) : PlacesSafe id plan' conditions := by
  unfold MiniSpark.eliminateProject at h
  split at h
  · next names hnames =>
      obtain ⟨s, hs, h⟩ := ExceptList.bind_eq_ok.mp h
      split at h <;> cases h
      · next hsame =>
          -- the projection passes every name of its child
          obtain rfl := columnNames?_eq_some.mp hnames
          have hall : sinking child conditions = conditions := by
            refine List.takeWhile_eq_self_iff.mpr (fun c hc => ?_)
            have hsub : c.referencedColumns ⊆ child.outputNames := by
              intro n hn
              have hname := hprov c hc n hn
              rwa [outputNames, names_of_columns, hsame, schema_names hs] at hname
            simpa using List.Subset.trans hsub (outputNames_subset_ground ha.1)
          rw [PlacesSafe, hall] at hp
          exact hp.2
      · exact hp.collapseProject
  · cases h
    exact hp.collapseProject

/-- Dropping redundant projections leaves the places of the filters safe. -/
theorem PlacesSafe.eliminate (ha : plan.Analyzed) (ht : plan.TablesConform) (hrun : plan.Runs)
    (h : MiniSpark.eliminate plan = .ok plan') (hprov : ∀ c ∈ conditions, plan.Provides c)
    (hp : PlacesSafe id plan conditions) : PlacesSafe id plan' conditions := by
  induction plan generalizing plan' conditions with
  | scan _ _ _ => cases h; trivial
  | filter child condition ih =>
      obtain ⟨child', hc, h⟩ := ExceptList.bind_eq_ok.mp h
      have hchild := ih ha.1 ht hrun.filter_child hc (List.forall_mem_cons.mpr ⟨ha.2, hprov⟩) hp
      cases h
      exact hchild
  | project child columns ih =>
      obtain ⟨child', hc, h⟩ := ExceptList.bind_eq_ok.mp h
      have hchild := ih ha.1 ht hrun.project_child hc (fun c hcs => (hp.1 c hcs).provides ha) hp.2
      have hk := (eliminate_keepsNames ha.1 hc).project ha
      refine PlacesSafe.eliminateProject hk.analyzed h hprov ?_
      rw [PlacesSafe, sinking_congr (eliminate_ground ha.1 hc)]
      exact ⟨hp.1, hchild⟩
  | aggregate child groupBy aggregates ih =>
      obtain ⟨child', hc, h⟩ := ExceptList.bind_eq_ok.mp h
      have hchild := ih ha.1 ht hrun.aggregate_child hc (fun c hcs => by cases hcs) hp
      cases h
      exact hchild
  | join left right on how broadcast ihl ihr =>
      obtain ⟨left', hl, h⟩ := ExceptList.bind_eq_ok.mp h
      obtain ⟨right', hr, h⟩ := ExceptList.bind_eq_ok.mp h
      cases h
      obtain ⟨hrl, hrr⟩ := hrun.join_sides
      have htl : left.TablesConform := ht.mono (List.subset_append_left _ _)
      have htr : right.TablesConform := ht.mono (List.subset_append_right _ _)
      have hshown : ∀ {side side' : LogicalPlan F}, side.Analyzed → side.TablesConform → side.Runs →
          MiniSpark.eliminate side = .ok side' →
          SideShown (· ∈ side.outputNames) side side' conditions := by
        intro side side' ha ht hrun hside
        have href := Refines.of_ok (eliminate_refines ha ht) hside
        exact .of_refines hrun href (eliminate_keepsNames ha hside) conditions
      have hsl := hshown ha.1 htl hrl hl
      have hsr := hshown ha.2.1 htr hrr hr
      refine hp.join_shown (replaces_same conditions) (fun n hn => ha.2.2.2.2.1 n hn) hsl hsr ?_ ?_
      · rw [toLeft_eq hsl hsr]
        exact ihl ha.1 htl hrl hl (fun c hcs n hn => (mem_toLeft hcs).2 hn) hp.2.1
      · rw [toRight_eq hsl hsr]
        exact ihr ha.2.1 htr hrr hr (fun c hcs n hn => (mem_toRight hcs).2 hn) hp.2.2
  | sort child keys ih =>
      obtain ⟨child', hc, h⟩ := ExceptList.bind_eq_ok.mp h
      have hchild := ih ha.1 ht hrun.sort_child hc (fun c hcs => by cases hcs) hp
      cases h
      exact hchild

end Eliminated

section Rewritten

open LogicalPlan

variable {fn : Expression F → Py (Expression F)} (hfn : RewritesInPlace fn)
  {plan plan' : LogicalPlan F} {columns columns' : List (Expression F)}

omit [PyRuntime F] in
lemma columnNames?_isSome_iff {es : List (Expression F)} :
    (columnNames? es).isSome = true ↔ ∀ e ∈ es, e.isColumn = true := by
  induction es with
  | nil => simp [columnNames?]
  | cons e es ih =>
      cases e with
      | column n => simpa [columnNames?, Expression.isColumn] using ih
      | _ => simp [columnNames?, Expression.isColumn]

include hfn

omit [PyRuntime F] in
lemma RewritesInPlace.isColumn {e e' : Expression F} (h : e.isAlias = true ∨ e.Settled)
    (he : fn e = .ok e') : e'.isColumn = e.isColumn := by
  rcases h with h | h
  · cases e with
    | aliased c n =>
        obtain ⟨c', -, rfl⟩ := hfn.aliased c n e' he
        rfl
    | _ => cases h
  · obtain rfl : e = e' := Except.ok.inj ((hfn.settled e h).symm.trans he)
    rfl

omit [PyRuntime F] in
/-- Rewriting makes no column plain and leaves the plain ones so. -/
lemma RewritesInPlace.plain (h : ∀ e ∈ columns, e.isAlias = true ∨ e.Settled)
    (hcols : columns.mapM fn = .ok columns') :
    (columnNames? columns').isSome = true ↔ (columnNames? columns).isSome = true := by
  simp only [columnNames?_isSome_iff]
  induction ExceptList.mapM_eq_ok.mp hcols with
  | nil => exact Iff.rfl
  | @cons e e' es es' he hrest ih =>
      rw [List.forall_mem_cons, List.forall_mem_cons, hfn.isColumn (h e List.mem_cons_self) he,
        ih (fun a ha => h a (List.mem_cons_of_mem e ha)) (ExceptList.mapM_eq_ok.mpr hrest)]

lemma mapExpressions_ground (ha : plan.Analyzed) (hs : plan.NamesSettled)
    (h : mapExpressions fn plan = .ok plan') :
    plan'.ground.outputNames = plan.ground.outputNames := by
  induction plan generalizing plan' with
  | scan _ _ _ => cases h; rfl
  | filter child condition ih =>
      obtain ⟨child', hc, h⟩ := ExceptList.bind_eq_ok.mp h
      obtain ⟨condition', -, h⟩ := ExceptList.bind_eq_ok.mp h
      have hchild := ih ha.1 hs hc
      cases h
      exact hchild
  | project child columns ih =>
      obtain ⟨child', hc, h⟩ := ExceptList.bind_eq_ok.mp h
      obtain ⟨columns', hcols, h⟩ := ExceptList.bind_eq_ok.mp h
      have hchild := ih ha.1 hs.1 hc
      cases h
      simp only [LogicalPlan.ground, hfn.plain hs.2 hcols]
      split
      · exact hchild
      · exact hfn.names hs.2 hcols
  | aggregate child groupBy aggregates ih =>
      have hk := hfn.keepsNames ha hs h
      obtain ⟨child', -, h⟩ := ExceptList.bind_eq_ok.mp h
      obtain ⟨groupBy', -, h⟩ := ExceptList.bind_eq_ok.mp h
      obtain ⟨aggregates', -, h⟩ := ExceptList.bind_eq_ok.mp h
      cases h
      exact hk.names
  | join left right on how broadcast ihl ihr =>
      have hk := hfn.keepsNames ha hs h
      obtain ⟨left', -, h⟩ := ExceptList.bind_eq_ok.mp h
      obtain ⟨right', -, h⟩ := ExceptList.bind_eq_ok.mp h
      cases h
      exact hk.names
  | sort child keys ih =>
      have hk := hfn.keepsNames ha hs h
      obtain ⟨child', -, h⟩ := ExceptList.bind_eq_ok.mp h
      obtain ⟨keys', -, h⟩ := ExceptList.bind_eq_ok.mp h
      cases h
      exact hk.names

omit hfn in
lemma sinking_replaces {p p' : LogicalPlan F} (h : p'.ground.outputNames = p.ground.outputNames)
    {cs cs' : List (Expression F)} (hcs : List.Forall₂ Replaces cs cs') :
    List.Forall₂ Replaces (sinking p cs) (sinking p' cs') := by
  induction hcs with
  | nil => exact .nil
  | @cons c c' cs cs' hc _ ih =>
      by_cases hsub : c.referencedColumns ⊆ p.ground.outputNames
      · rw [sinking_cons hsub, sinking_cons (h ▸ List.Subset.trans hc.subset hsub)]
        exact .cons hc ih
      · have hsub' : ¬ c'.referencedColumns ⊆ p'.ground.outputNames :=
          fun hn => hsub (h ▸ List.Subset.trans hc.superset hn)
        rw [sinking, sinking, List.takeWhile_cons_of_neg (by simpa using hsub),
          List.takeWhile_cons_of_neg (by simpa using hsub')]
        exact .nil

/-- What passes a projection passes it when its computed columns are rewritten. -/
lemma PassesThrough.rewritten {c c' : Expression F} (h : PassesThrough columns c)
    (hc : c'.referencedColumns ⊆ c.referencedColumns) (hcols : columns.mapM fn = .ok columns') :
    PassesThrough columns' c' := by
  intro n hn
  obtain ⟨e, he, rfl, hcol⟩ := h n (hc hn)
  obtain ⟨e', hmem, he'⟩ := ExceptList.mapM_ok_mem hcols he
  have hsettled : e.Settled := by
    cases e with
    | aliased d m =>
        obtain rfl : d = .column m := hcol
        exact ⟨trivial, trivial⟩
    | column m => exact ⟨trivial, trivial⟩
    | _ => cases hcol
  obtain rfl : e = e' := Except.ok.inj ((hfn.settled e hsettled).symm.trans he')
  exact ⟨e, hmem, rfl, hcol⟩

/-- Rewriting each condition so that it still comes to one that stands for it leaves the places of
the filters safe. -/
theorem PlacesSafe.rewritten {f f' : Expression F → Expression F} {cs cs' : List (Expression F)}
    (ha : plan.Analyzed) (hs : plan.NamesSettled) (ht : plan.TablesConform) (hrun : plan.Runs)
    (h : mapExpressions fn plan = .ok plan')
    (hcond : ∀ c ∈ plan.conditions, ∃ c', fn c = .ok c' ∧ KeepsTruth c c' ∧ Replaces (f c) (f' c'))
    (hproj : ∀ e ∈ plan.projected, ∃ e', fn e = .ok e' ∧ KeepsValue e e')
    (hcs : List.Forall₂ Replaces cs cs') (hp : PlacesSafe f plan cs) : PlacesSafe f' plan' cs' := by
  induction plan generalizing plan' cs cs' with
  | scan _ _ _ => cases h; trivial
  | filter child condition ih =>
      obtain ⟨⟨condition', hc, -, hreplaces⟩, hcond⟩ := List.forall_mem_cons.mp hcond
      obtain ⟨child', hchild, h⟩ := ExceptList.bind_eq_ok.mp h
      rw [hc, ExceptList.bind_ok] at h
      have hplaces := ih ha.1 hs ht hrun.filter_child hchild hcond hproj (.cons hreplaces hcs) hp
      cases h
      exact hplaces
  | project child columns ih =>
      obtain ⟨child', hchild, h⟩ := ExceptList.bind_eq_ok.mp h
      obtain ⟨columns', hcols, h⟩ := ExceptList.bind_eq_ok.mp h
      cases h
      have hsink := sinking_replaces (mapExpressions_ground hfn ha.1 hs.1 hchild) hcs
      refine ⟨fun c' hc' => ?_, ih ha.1 hs.1 ht hrun.project_child hchild hcond
        (fun e he => hproj e (List.mem_append_right _ he)) hsink hp.2⟩
      obtain ⟨c, hc, hreplaces⟩ := Dealing.exists_partner hsink hc'
      exact (hp.1 c hc).rewritten hfn hreplaces.subset hcols
  | aggregate child groupBy aggregates ih =>
      obtain ⟨child', hchild, h⟩ := ExceptList.bind_eq_ok.mp h
      obtain ⟨groupBy', -, h⟩ := ExceptList.bind_eq_ok.mp h
      obtain ⟨aggregates', -, h⟩ := ExceptList.bind_eq_ok.mp h
      have hplaces := ih ha.1 hs ht hrun.aggregate_child hchild hcond hproj .nil hp
      cases h
      exact hplaces
  | join left right on how broadcast ihl ihr =>
      obtain ⟨left', hl, h⟩ := ExceptList.bind_eq_ok.mp h
      obtain ⟨right', hr, h⟩ := ExceptList.bind_eq_ok.mp h
      cases h
      obtain ⟨hrl, hrr⟩ := hrun.join_sides
      have htl : left.TablesConform := ht.mono (List.subset_append_left _ _)
      have htr : right.TablesConform := ht.mono (List.subset_append_right _ _)
      have hcl := fun c hc => hcond c (List.mem_append_left _ hc)
      have hcr := fun c hc => hcond c (List.mem_append_right _ hc)
      have hpl := fun e he => hproj e (List.mem_append_left _ he)
      have hpr := fun e he => hproj e (List.mem_append_right _ he)
      have hshown : ∀ {side side' : LogicalPlan F}, side.Analyzed → side.NamesSettled →
          side.TablesConform → side.Runs → mapExpressions fn side = .ok side' →
          (∀ c ∈ side.conditions, ∃ c', fn c = .ok c' ∧ KeepsTruth c c' ∧ Replaces (f c) (f' c')) →
          (∀ e ∈ side.projected, ∃ e', fn e = .ok e' ∧ KeepsValue e e') →
          SideShown (· ∈ side.outputNames) side side' cs := by
        intro side side' ha hs ht hrun hside hcond hproj
        have hok := mapExpressions_refines hfn ha hs ht (fun c hc => by
          obtain ⟨c', hc', hk, -⟩ := hcond c hc
          exact ⟨c', hc', hk⟩) hproj
        exact .of_refines hrun (.of_ok hok hside) (hfn.keepsNames ha hs hside) cs
      have hsl := hshown ha.1 hs.1 htl hrl hl hcl hpl
      have hsr := hshown ha.2.1 hs.2 htr hrr hr hcr hpr
      exact hp.join_shown hcs (fun n hn => ha.2.2.2.2.1 n hn) hsl hsr
        (ihl ha.1 hs.1 htl hrl hl hcl hpl (toLeft_shown (fun _ _ h => h) hcs hsl hsr) hp.2.1)
        (ihr ha.2.1 hs.2 htr hrr hr hcr hpr (toRight_shown (fun _ _ h => h) hcs hsl hsr) hp.2.2)
  | sort child keys ih =>
      obtain ⟨child', hchild, h⟩ := ExceptList.bind_eq_ok.mp h
      obtain ⟨keys', -, h⟩ := ExceptList.bind_eq_ok.mp h
      have hplaces := ih ha.1 hs ht hrun.sort_child hchild hcond hproj .nil hp
      cases h
      exact hplaces

end Rewritten

end MiniSpark
