import MiniSpark.Constants
import MiniSpark.Dealing

/-!
# Where the filters of a plan can come to

Every pass of the optimizer moves filters down, and a later pass can move them on. The
places a filter can come to are read off the plan once: plain projections never hold it
up, a projection that computes a column it reads does, and a join sends it to one side.
The rules keep the condition that it reads the same rows at each of them.
-/
namespace MiniSpark

variable {F : Type} [PyRuntime F]

section Places

/-- What is below the filters and the plain projections on top of a plan. -/
def LogicalPlan.ground : LogicalPlan F → LogicalPlan F
  | .filter child _ => child.ground
  | .project child columns =>
      if (columnNames? columns).isSome then child.ground else .project child columns
  | plan => plan

/-- The conditions of a chain that can come below a projection of the plan, up to the first that
reads a column that is not there. -/
def sinking (plan : LogicalPlan F) (conditions : List (Expression F)) : List (Expression F) :=
  conditions.takeWhile (fun c => c.referencedColumns ⊆ plan.ground.outputNames)

/-- The conditions of a chain that go to the left side of a join, up to the first that reads
both sides. -/
def toLeft (left right : LogicalPlan F) : List (Expression F) → List (Expression F)
  | [] => []
  | c :: cs =>
      if c.referencedColumns ⊆ left.outputNames then c :: toLeft left right cs
      else if c.referencedColumns ⊆ right.outputNames then toLeft left right cs
      else []

/-- The conditions of a chain that go to the right side of a join. -/
def toRight (left right : LogicalPlan F) : List (Expression F) → List (Expression F)
  | [] => []
  | c :: cs =>
      if c.referencedColumns ⊆ left.outputNames then toRight left right cs
      else if c.referencedColumns ⊆ right.outputNames then c :: toRight left right cs
      else []

/-- Wherever the filters of the plan, each in its form `f`, and the given ones above it can come to,
they read the rows as they do where they stand: no projection on the way computes a column they
read, and on the sides of the joins they evaluate, each after those that come there before it. -/
def PlacesSafe (f : Expression F → Expression F) : LogicalPlan F → List (Expression F) → Prop
  | .scan _ _ _, _ => True
  | .filter child condition, conditions => PlacesSafe f child (f condition :: conditions)
  | .project child columns, conditions =>
      (∀ c ∈ sinking child conditions, PassesThrough columns c) ∧
        PlacesSafe f child (sinking child conditions)
  | .aggregate child _ _, _ => PlacesSafe f child []
  | .join left right on _ _, conditions =>
      SafeBelowJoin on left right conditions ∧ PlacesSafe f left (toLeft left right conditions) ∧
        PlacesSafe f right (toRight left right conditions)
  | .sort child _, _ => PlacesSafe f child []

end Places

section Prefixes

variable {f : Expression F → Expression F}

lemma toLeft_append (left right : LogicalPlan F) (cs ds : List (Expression F)) :
    ∃ es, toLeft left right (cs ++ ds) = toLeft left right cs ++ es := by
  induction cs with
  | nil => exact ⟨_, rfl⟩
  | cons c cs ih =>
      obtain ⟨es, hes⟩ := ih
      rw [List.cons_append, toLeft, toLeft]
      split
      · exact ⟨es, by rw [hes]; rfl⟩
      · split
        · exact ⟨es, hes⟩
        · exact ⟨[], rfl⟩

lemma toRight_append (left right : LogicalPlan F) (cs ds : List (Expression F)) :
    ∃ es, toRight left right (cs ++ ds) = toRight left right cs ++ es := by
  induction cs with
  | nil => exact ⟨_, rfl⟩
  | cons c cs ih =>
      obtain ⟨es, hes⟩ := ih
      rw [List.cons_append, toRight, toRight]
      split
      · exact ⟨es, hes⟩
      · split
        · exact ⟨es, by rw [hes]; rfl⟩
        · exact ⟨[], rfl⟩

lemma sinking_append (plan : LogicalPlan F) (cs ds : List (Expression F)) :
    ∃ es, sinking plan (cs ++ ds) = sinking plan cs ++ es := by
  induction cs with
  | nil => exact ⟨_, rfl⟩
  | cons c cs ih =>
      obtain ⟨es, hes⟩ := ih
      simp only [sinking, List.cons_append, List.takeWhile_cons] at hes ⊢
      split
      · exact ⟨es, by rw [hes]; rfl⟩
      · exact ⟨[], rfl⟩

/-- With fewer filters above it a plan is as safe. -/
lemma PlacesSafe.of_append {plan : LogicalPlan F} {cs : List (Expression F)}
    (ds : List (Expression F)) (h : PlacesSafe f plan (cs ++ ds)) : PlacesSafe f plan cs := by
  induction plan generalizing cs ds with
  | scan _ _ _ => trivial
  | filter child condition ih => exact ih ds h
  | project child columns ih =>
      obtain ⟨es, hes⟩ := sinking_append child cs ds
      rw [PlacesSafe, hes] at h
      exact ⟨fun c hc => h.1 c (List.mem_append_left _ hc), ih es h.2⟩
  | aggregate child groupBy aggregates ih => exact h
  | join left right on how broadcast ihl ihr =>
      obtain ⟨es, hes⟩ := toLeft_append left right cs ds
      obtain ⟨es', hes'⟩ := toRight_append left right cs ds
      rw [PlacesSafe, hes, hes'] at h
      exact ⟨h.1.of_append, ihl es h.2.1, ihr es' h.2.2⟩
  | sort child keys ih => exact h

lemma PlacesSafe.alone {plan : LogicalPlan F} {cs : List (Expression F)}
    (h : PlacesSafe f plan cs) : PlacesSafe f plan [] :=
  PlacesSafe.of_append cs (show PlacesSafe f plan ([] ++ cs) from h)

end Prefixes

section Runs

/-- The plan runs to completion. -/
def LogicalPlan.Runs (plan : LogicalPlan F) : Prop := ∃ rows, naiveRows plan = .ok rows

variable {p q : LogicalPlan F} {conditions : List (Expression F)}

/-- An operator on the rows of a child runs only where the child does. -/
lemma LogicalPlan.Runs.of_bind {f : List (Record F) → Py (List (Record F))}
    (h : ∃ rows, (naiveRows p >>= f) = .ok rows) : p.Runs := by
  obtain ⟨rows, hrows⟩ := h
  obtain ⟨crows, hc, -⟩ := ExceptList.bind_eq_ok.mp hrows
  exact ⟨crows, hc⟩

lemma LogicalPlan.Runs.filter_child {condition : Expression F}
    (h : (LogicalPlan.filter p condition).Runs) : p.Runs := .of_bind h

lemma LogicalPlan.Runs.project_child {columns : List (Expression F)}
    (h : (LogicalPlan.project p columns).Runs) : p.Runs := .of_bind h

lemma LogicalPlan.Runs.aggregate_child {groupBy aggregates : List (Expression F)}
    (h : (LogicalPlan.aggregate p groupBy aggregates).Runs) : p.Runs := .of_bind h

lemma LogicalPlan.Runs.sort_child {keys : List (Expression F × Bool)}
    (h : (LogicalPlan.sort p keys).Runs) : p.Runs := .of_bind h

lemma LogicalPlan.Runs.join_sides {on : List String} {how : String} {broadcast : Bool}
    (h : (LogicalPlan.join p q on how broadcast).Runs) : p.Runs ∧ q.Runs := by
  obtain ⟨rows, hrows⟩ := h
  obtain ⟨lrows, hl, hrows⟩ := ExceptList.bind_eq_ok.mp hrows
  obtain ⟨rrows, hr, -⟩ := ExceptList.bind_eq_ok.mp hrows
  exact ⟨⟨lrows, hl⟩, ⟨rrows, hr⟩⟩

lemma LogicalPlan.Runs.of_filters (h : (p.filters conditions).Runs) : p.Runs := by
  induction conditions generalizing p with
  | nil => exact h
  | cons c cs ih => exact (ih (p := .filter p c) h).filter_child

lemma LogicalPlan.Runs.of_simulates {P : String → Prop} (h : p.Runs) (hsim : Simulates P p q) :
    q.Runs := by
  obtain ⟨rows, hrows⟩ := h
  obtain ⟨rows', hrows', -⟩ := hsim rows hrows
  exact ⟨rows', hrows'⟩

/-- A filter of a plan that runs evaluates on the rows below it. -/
lemma LogicalPlan.Runs.evaluates {condition : Expression F}
    (h : (LogicalPlan.filter p condition).Runs) : EvaluatesOn p condition := by
  obtain ⟨rows, hrows⟩ := h
  obtain ⟨crows, hc, hfilter⟩ := ExceptList.bind_eq_ok.mp hrows
  intro rows' hrows' r hr
  rw [hc, Except.ok.injEq] at hrows'
  exact (ExceptList.filterE_eq_ok.mp hfilter).1 r (hrows' ▸ hr)

end Runs

section Chains

variable {child left right : LogicalPlan F} {columns : List (Expression F)}
  {conditions : List (Expression F)}

/-- The names of a plan are names of its ground. -/
lemma outputNames_subset_ground {plan : LogicalPlan F} (ha : plan.Analyzed) :
    plan.outputNames ⊆ plan.ground.outputNames := by
  induction plan with
  | filter child condition ih => exact ih ha.1
  | project child columns ih =>
      rw [LogicalPlan.ground]
      split
      · next hplain =>
          obtain ⟨names, hnames⟩ := Option.isSome_iff_exists.mp hplain
          obtain rfl := columnNames?_eq_some.mp hnames
          refine List.Subset.trans (fun n hn => ?_) (ih ha.1)
          rw [LogicalPlan.outputNames, names_of_columns] at hn
          exact ha.2.1 (.column n) (List.mem_map_of_mem hn) n (List.mem_singleton_self n)
      · exact List.Subset.refl _
  | _ => exact List.Subset.refl _

/-- Conditions on columns that a projection passes through can move below it. -/
lemma safeBelowProject_of_passesThrough {names : List String}
    (ha : ((LogicalPlan.project child columns).filters conditions).Analyzed)
    (hrun : ((LogicalPlan.project child columns).filters conditions).Runs)
    (hsub : child.outputNames ⊆ names)
    (h : ∀ c ∈ conditions.takeWhile (fun c => c.referencedColumns ⊆ names),
      PassesThrough columns c) : SafeBelowProject columns child conditions := by
  induction conditions generalizing child with
  | nil => trivial
  | cons c cs ih =>
      intro hc
      have hpasses : PassesThrough columns c := by
        refine h c ?_
        rw [List.takeWhile_cons_of_pos (by simpa using List.Subset.trans hc hsub)]
        exact List.mem_cons_self
      have hap := analyzed_of_filters ha
      have hfilter := LogicalPlan.Runs.of_filters (p := .filter _ c) hrun
      have hread : ReadsSame child columns c := by
        refine readsSame_of_passesThrough hpasses hap.2.2.nodup (fun rows hrows r hr p hp => ?_)
        obtain ⟨prows, hprows⟩ := hfilter.filter_child
        refine hfilter.evaluates prows hprows p ?_
        rw [naiveRows_project hap, hrows, ExceptList.bind_ok] at hprows
        obtain ⟨p', hmem, hp'⟩ := ExceptList.mapM_ok_mem hprows hr
        rw [hp, Except.ok.injEq] at hp'
        exact hp' ▸ hmem
      refine ⟨hread, ?_⟩
      have hkeep : (LogicalPlan.filter (.project child columns) c).KeepsNames
          (.project (.filter child c) columns) := ⟨⟨⟨hap.1, fun _ hn => hc hn⟩, hap.2⟩, id,
        List.Subset.refl _, rfl⟩
      have href := (refines_filter_project hap hc hread).filters cs ha
      exact ih (hkeep.filters ha).analyzed (hrun.of_simulates href) hsub
        (fun d hd => h d (by
          rw [List.takeWhile_cons_of_pos (by simpa using List.Subset.trans hc hsub)]
          exact List.mem_cons_of_mem c hd))

/-- Where all its places are safe, the next moves of a chain are. -/
theorem PlacesSafe.chainSafe {plan : LogicalPlan F} (ha : (plan.filters conditions).Analyzed)
    (hrun : (plan.filters conditions).Runs) (h : PlacesSafe id plan conditions) :
    ChainSafe plan conditions := by
  induction plan generalizing conditions with
  | scan _ _ _ => trivial
  | filter child condition ih => exact @ih (condition :: conditions) ha hrun h
  | project child columns ih =>
      have hap := analyzed_of_filters ha
      exact ⟨@ih [] hap.1 hrun.of_filters.project_child h.2.alone,
        safeBelowProject_of_passesThrough ha hrun (outputNames_subset_ground hap.1) h.1⟩
  | aggregate child groupBy aggregates ih =>
      exact @ih [] (analyzed_of_filters ha).1 hrun.of_filters.aggregate_child h
  | join left right on how broadcast ihl ihr =>
      have hap := analyzed_of_filters ha
      obtain ⟨hl, hr⟩ := hrun.of_filters.join_sides
      exact ⟨@ihl [] hap.1 hl h.2.1.alone,
        @ihr [] hap.2.1 hr h.2.2.alone, h.1⟩
  | sort child keys ih =>
      exact @ih [] (analyzed_of_filters ha).1 hrun.of_filters.sort_child h

end Chains

section Shown

/-- The rows of the second plan are rows of the first, as far as the names in `P` go. -/
def ShownBy (P : String → Prop) (plan plan' : LogicalPlan F) : Prop :=
  ∀ rows', naiveRows plan' = .ok rows' → ∃ rows, naiveRows plan = .ok rows ∧ AgreeRows P rows rows'

/-- The second condition reads the columns of the first and has its truth. -/
structure Replaces (condition condition' : Expression F) : Prop where
  subset : condition'.referencedColumns ⊆ condition.referencedColumns
  superset : condition.referencedColumns ⊆ condition'.referencedColumns
  truth : KeepsTruth condition condition'

variable {P : String → Prop} {p p' : LogicalPlan F} {c c' : Expression F}

lemma Replaces.refl (c : Expression F) : Replaces c c :=
  ⟨List.Subset.refl _, List.Subset.refl _, KeepsTruth.refl c⟩

lemma ShownBy.of_simulates (hrun : p.Runs) (h : Simulates P p p') : ShownBy P p p' := by
  obtain ⟨rows, hrows⟩ := hrun
  intro rows' hrows'
  obtain ⟨rows'', hrows'', hag⟩ := h rows hrows
  rw [hrows', Except.ok.injEq] at hrows''
  exact ⟨rows, hrows, hrows'' ▸ hag⟩

lemma holds_of_agree {r r' : Record F} {t : Bool} (hP : Covers P c) (ha : Agree P r r')
    (hk : KeepsTruth c c') (h : holds c r = .ok t) : holds c' r' = .ok t := by
  obtain ⟨v, hv, rfl⟩ := ExceptList.map_eq_ok.mp h
  obtain ⟨v', hv', ht⟩ := hk r' v (evaluate_of_agree hP ha hv)
  exact ExceptList.map_eq_ok.mpr ⟨v', hv', ht⟩

lemma EvaluatesOn.shown (h : EvaluatesOn p c) (hs : ShownBy P p p') (hP : Covers P c)
    (hk : KeepsTruth c c') : EvaluatesOn p' c' := by
  intro rows' hrows' r' hr'
  obtain ⟨rows, hrows, hag⟩ := hs rows' hrows'
  obtain ⟨r, hr, hagree⟩ := Dealing.exists_partner hag hr'
  obtain ⟨t, ht⟩ := h rows hrows r hr
  exact ⟨t, holds_of_agree hP hagree hk ht⟩

lemma ShownBy.filter (hs : ShownBy P p p') (h : EvaluatesOn p c) (hP : Covers P c)
    (hk : KeepsTruth c c') : ShownBy P (.filter p c) (.filter p' c') := by
  intro out' hout'
  obtain ⟨rows', hrows', hout'⟩ := ExceptList.bind_eq_ok.mp hout'
  obtain ⟨rows, hrows, hag⟩ := hs rows' hrows'
  have hfilter : filterRows c rows = .ok (rows.filter (ExceptList.verdict (holds c))) :=
    ExceptList.filterE_eq_ok.mpr ⟨h rows hrows, rfl⟩
  obtain ⟨out, hout, hag'⟩ := filterRows_agree hag hP hk hfilter
  rw [hout', Except.ok.injEq] at hout
  exact ⟨_, by rw [naiveRows, hrows]; exact hfilter, hout ▸ hag'⟩

/-- An expression that evaluates finds its columns. -/
lemma found_of_evaluate {e : Expression F} {r : Record F} {v : Value F} (h : e.evaluate r = .ok v) :
    ∀ n ∈ e.referencedColumns, (r.get? n).isSome = true := by
  induction e generalizing v with
  | column name =>
      intro n hn
      obtain rfl := List.mem_singleton.mp hn
      rw [Expression.evaluate_column, Expression.lookupColumn_eq_ok] at h
      rw [h, Option.isSome_some]
  | literal value => exact fun n hn => absurd hn (List.not_mem_nil)
  | aliased c n ih => exact ih h
  | binary op l m ihl ihm =>
      obtain ⟨a, b, ha, hb, -⟩ := Expression.evaluate_binary_ok.mp h
      intro n hn
      exact (List.mem_append.mp hn).elim (ihl ha n) (ihm hb n)
  | not c ih =>
      obtain ⟨a, ha, -⟩ := Expression.evaluate_not_ok.mp h
      exact ih ha
  | isNull c ih =>
      obtain ⟨a, ha, -⟩ := Expression.evaluate_isNull_ok.mp h
      exact ih ha
  | isNotNull c ih =>
      obtain ⟨a, ha, -⟩ := Expression.evaluate_isNotNull_ok.mp h
      exact ih ha
  | countStar => cases h
  | aggregate name c _ => cases h

omit [PyRuntime F] in
lemma Agree.symm {r r' : Record F} (h : Agree P r r') : Agree P r' r := fun n hn => (h n hn).symm

lemma keysMatch_of_agree {Pl Pr : String → Prop} {on : List String} {l l' r r' : Record F}
    (hon : ∀ n ∈ on, Pl n ∧ Pr n) (hl : Agree Pl l l') (hr : Agree Pr r r')
    (h : keysMatch (on.map Expression.column) (on.map Expression.column) l' r' = true) :
    keysMatch (on.map Expression.column) (on.map Expression.column) l r = true := by
  have hcovers : ∀ {Q : String → Prop}, (∀ n ∈ on, Q n) →
      ∀ e ∈ on.map (Expression.column (F := F)), Covers Q e := by
    intro Q hQ e he n hn
    obtain ⟨m, hm, rfl⟩ := List.mem_map.mp he
    rw [List.mem_singleton.mp hn]
    exact hQ m hm
  cases ha : tupleKey (on.map Expression.column) l' with
  | error e => simp [keysMatch, ExceptList.verdict, ha] at h
  | ok a =>
      cases hb : tupleKey (on.map Expression.column) r' with
      | error e => simp [keysMatch, ExceptList.verdict, ha, hb] at h
      | ok b =>
          rw [keysMatch_of_ok ha hb] at h
          rw [keysMatch_of_ok (tupleKey_of_agree (hcovers fun n hn => (hon n hn).1) hl.symm ha)
            (tupleKey_of_agree (hcovers fun n hn => (hon n hn).2) hr.symm hb), h]

/-- A condition that reads a right row as the joined rows goes on doing so. -/
lemma ReadsJoined.shown {Pl Pr : String → Prop} {left left' right right' : LogicalPlan F}
    {on : List String} (h : ReadsJoined left right on c) (hev : EvaluatesOn right c)
    (hl : ShownBy Pl left left') (hr : ShownBy Pr right right') (hon : ∀ n ∈ on, Pl n ∧ Pr n)
    (hP : Covers Pr c) (hc : Replaces c c') : ReadsJoined left' right' on c' := by
  intro lrows' rrows' hlrows' hrrows' l' hl' r' hr' hmatch t' ht'
  obtain ⟨lrows, hlrows, hagl⟩ := hl lrows' hlrows'
  obtain ⟨rrows, hrrows, hagr⟩ := hr rrows' hrrows'
  obtain ⟨l, hlm, hal⟩ := Dealing.exists_partner hagl hl'
  obtain ⟨r, hrm, har⟩ := Dealing.exists_partner hagr hr'
  obtain ⟨t, ht⟩ := hev rrows hrrows r hrm
  have hsame := holds_of_agree hP har hc.truth ht
  rw [ht', Except.ok.injEq] at hsame
  have hjoined :=
    h lrows rrows hlrows hrrows l hlm r hrm (keysMatch_of_agree hon hal har hmatch) t ht
  obtain ⟨v, hv, -⟩ := ExceptList.map_eq_ok.mp ht
  -- the joined rows agree on what the condition reads
  have hagree : Agree (· ∈ c.referencedColumns) (mergeRow on l r) (mergeRow on l' r') := by
    intro n hn
    rw [mergeRow_get?, mergeRow_get?]
    split
    · next hon' => exact hal n (hon n hon').1
    · obtain ⟨w, hw⟩ := Option.isSome_iff_exists.mp (found_of_evaluate hv n hn)
      rw [har n (hP n hn), hw, Option.some_or, Option.some_or]
  rw [hsame]
  exact holds_of_agree (fun n hn => hn) hagree hc.truth hjoined

/-- A side of a join and what it has become, as far as the conditions above go. -/
structure SideShown (P : String → Prop) (side side' : LogicalPlan F)
    (conditions : List (Expression F)) : Prop where
  rows : ShownBy P side side'
  subset : side'.outputNames ⊆ side.outputNames
  keeps : ∀ c ∈ conditions, ∀ n ∈ c.referencedColumns, n ∈ side.outputNames →
    P n ∧ n ∈ side'.outputNames

variable {side side' : LogicalPlan F} {cs : List (Expression F)}

lemma SideShown.tail (h : SideShown P side side' (c :: cs)) : SideShown P side side' cs :=
  ⟨h.rows, h.subset, fun d hd => h.keeps d (List.mem_cons_of_mem c hd)⟩

lemma SideShown.covers (h : SideShown P side side' (c :: cs))
    (hsub : c.referencedColumns ⊆ side.outputNames) : Covers P c :=
  fun n hn => (h.keeps c List.mem_cons_self n hn (hsub hn)).1

lemma SideShown.subset_iff (h : SideShown P side side' (c :: cs)) (hc : Replaces c c') :
    c'.referencedColumns ⊆ side'.outputNames ↔ c.referencedColumns ⊆ side.outputNames :=
  ⟨fun hsub _ hn => h.subset (hsub (hc.superset hn)), fun hsub n hn =>
    (h.keeps c List.mem_cons_self n (hc.subset hn) (hsub (hc.subset hn))).2⟩

lemma SideShown.filter (h : SideShown P side side' (c :: cs)) (hc : Replaces c c')
    (hsub : c.referencedColumns ⊆ side.outputNames) (hev : EvaluatesOn side c) :
    SideShown P (.filter side c) (.filter side' c') cs :=
  ⟨h.rows.filter hev (h.covers hsub) hc.truth, h.subset, h.tail.keeps⟩

variable {Pl Pr : String → Prop} {left left' right right' : LogicalPlan F} {on : List String}
  {cs' : List (Expression F)}

/-- What is safe on the sides of a join is safe on what they have become. -/
theorem SafeBelowJoin.shown (hcs : List.Forall₂ Replaces cs cs') (hon : ∀ n ∈ on, Pl n ∧ Pr n)
    (hl : SideShown Pl left left' cs) (hr : SideShown Pr right right' cs)
    (h : SafeBelowJoin on left right cs) : SafeBelowJoin on left' right' cs' := by
  induction hcs generalizing left left' right right' with
  | nil => trivial
  | @cons c c' cs cs' hc _ ih =>
      rw [SafeBelowJoin] at h ⊢
      simp only [hl.subset_iff hc, hr.subset_iff hc]
      split
      · next hsub =>
          rw [if_pos hsub] at h
          exact ⟨h.1.shown hl.rows (hl.covers hsub) hc.truth,
            ih (hl.filter hc hsub h.1) hr.tail h.2⟩
      · next hnot =>
          rw [if_neg hnot] at h
          intro hsub
          obtain ⟨hev, hread, hrest⟩ := h hsub
          exact ⟨hev.shown hr.rows (hr.covers hsub) hc.truth,
            hread.shown hev hl.rows hr.rows hon (hr.covers hsub) hc,
            ih hl.tail (hr.filter hc hsub hev) hrest⟩

lemma toLeft_shown {R : Expression F → Expression F → Prop} (hR : ∀ c c', R c c' → Replaces c c')
    (hcs : List.Forall₂ R cs cs') (hl : SideShown Pl left left' cs)
    (hr : SideShown Pr right right' cs) :
    List.Forall₂ R (toLeft left right cs) (toLeft left' right' cs') := by
  induction hcs with
  | nil => exact .nil
  | @cons c c' cs cs' hc _ ih =>
      simp only [toLeft, hl.subset_iff (hR c c' hc), hr.subset_iff (hR c c' hc)]
      split
      · exact .cons hc (ih hl.tail hr.tail)
      · split
        · exact ih hl.tail hr.tail
        · exact .nil

lemma toRight_shown {R : Expression F → Expression F → Prop} (hR : ∀ c c', R c c' → Replaces c c')
    (hcs : List.Forall₂ R cs cs') (hl : SideShown Pl left left' cs)
    (hr : SideShown Pr right right' cs) :
    List.Forall₂ R (toRight left right cs) (toRight left' right' cs') := by
  induction hcs with
  | nil => exact .nil
  | @cons c c' cs cs' hc _ ih =>
      simp only [toRight, hl.subset_iff (hR c c' hc), hr.subset_iff (hR c c' hc)]
      split
      · exact ih hl.tail hr.tail
      · split
        · exact .cons hc (ih hl.tail hr.tail)
        · exact .nil

lemma mem_toLeft (h : c ∈ toLeft left right cs) :
    c ∈ cs ∧ c.referencedColumns ⊆ left.outputNames := by
  induction cs with
  | nil => cases h
  | cons d ds ih =>
      rw [toLeft] at h
      split at h
      · next hsub =>
          rcases List.mem_cons.mp h with rfl | h
          · exact ⟨List.mem_cons_self, hsub⟩
          · exact ⟨List.mem_cons_of_mem d (ih h).1, (ih h).2⟩
      · split at h
        · exact ⟨List.mem_cons_of_mem d (ih h).1, (ih h).2⟩
        · cases h

lemma mem_toRight (h : c ∈ toRight left right cs) :
    c ∈ cs ∧ c.referencedColumns ⊆ right.outputNames := by
  induction cs with
  | nil => cases h
  | cons d ds ih =>
      rw [toRight] at h
      split at h
      · exact ⟨List.mem_cons_of_mem d (ih h).1, (ih h).2⟩
      · split at h
        · next hsub =>
            rcases List.mem_cons.mp h with rfl | h
            · exact ⟨List.mem_cons_self, hsub⟩
            · exact ⟨List.mem_cons_of_mem d (ih h).1, (ih h).2⟩
        · cases h

variable {f f' : Expression F → Expression F} {how : String} {broadcast : Bool}

/-- The places in a join are those of its sides. -/
lemma PlacesSafe.join_shown (hcs : List.Forall₂ Replaces cs cs') (hon : ∀ n ∈ on, Pl n ∧ Pr n)
    (hl : SideShown Pl left left' cs) (hr : SideShown Pr right right' cs)
    (h : PlacesSafe f (.join left right on how broadcast) cs)
    (hleft : PlacesSafe f' left' (toLeft left' right' cs'))
    (hright : PlacesSafe f' right' (toRight left' right' cs')) :
    PlacesSafe f' (.join left' right' on how broadcast) cs' :=
  ⟨h.1.shown hcs hon hl hr, hleft, hright⟩

lemma replaces_same (cs : List (Expression F)) : List.Forall₂ Replaces cs cs :=
  List.forall₂_same.mpr (fun c _ => Replaces.refl c)

lemma toLeft_eq (hl : SideShown Pl left left' cs) (hr : SideShown Pr right right' cs) :
    toLeft left' right' cs = toLeft left right cs := by
  have h := toLeft_shown (R := Eq) (fun c _ h => h ▸ Replaces.refl c)
    (List.forall₂_same.mpr (fun _ _ => rfl)) hl hr
  rw [List.forall₂_eq_eq_eq] at h
  exact h.symm

lemma toRight_eq (hl : SideShown Pl left left' cs) (hr : SideShown Pr right right' cs) :
    toRight left' right' cs = toRight left right cs := by
  have h := toRight_shown (R := Eq) (fun c _ h => h ▸ Replaces.refl c)
    (List.forall₂_same.mpr (fun _ _ => rfl)) hl hr
  rw [List.forall₂_eq_eq_eq] at h
  exact h.symm

/-- What a rule that refines the plan has returned. -/
lemma Refines.of_ok {x : Py (LogicalPlan F)} (h : ∃ q, x = .ok q ∧ Refines p q)
    (hp : x = .ok p') : Refines p p' := by
  obtain ⟨q, hq, href⟩ := h
  obtain rfl : p' = q := Except.ok.inj (hp.symm.trans hq)
  exact href

/-- A side that a rule refines, keeping its names. -/
lemma SideShown.of_refines (hrun : side.Runs) (href : Refines side side')
    (hk : side.KeepsNames side') (cs : List (Expression F)) :
    SideShown (· ∈ side.outputNames) side side' cs :=
  ⟨.of_simulates hrun href, fun _ hn => hk.names ▸ hn, fun _ _ _ _ hn => ⟨hn, hk.names.symm ▸ hn⟩⟩

end Shown

end MiniSpark
