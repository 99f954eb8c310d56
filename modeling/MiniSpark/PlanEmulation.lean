import MiniSpark.RangeExchange

/-!
# Plans that emulate one another

Changing a leaf of a physical plan changes what the nodes above it are given. One plan
emulates another when it yields, partition by partition, rows related to the other's;
nodes that read whole rows preserve equality.
-/
namespace MiniSpark

variable {F : Type} [PyRuntime F] [PyHost F]

variable {R R' : List (Record F) → List (Record F) → Prop}

omit [PyRuntime F] [PyHost F] in
/-- The second partition yields rows related to those of the first. -/
def Replays (R : List (Record F) → List (Record F) → Prop) (x x' : Py (Partition F)) : Prop :=
  ∀ part, x = .ok part → ∃ part', x' = .ok part' ∧
    ∀ rows, part.toList = .ok rows → ∃ rows', part'.toList = .ok rows' ∧ R rows rows'

/-- The second plan has a meaning when the first one does, partition by partition. -/
def Emulates (R : List (Record F) → List (Record F) → Prop) (plan plan' : PhysicalPlan F) : Prop :=
  ∀ d, denote plan = .ok d → ∃ d', denote plan' = .ok d' ∧ d'.numPartitions = d.numPartitions ∧
    ∀ pid, Replays R (d.part pid) (d'.part pid)

theorem Emulates.refl (plan : PhysicalPlan F) (h : ∀ rows, R rows rows) : Emulates R plan plan :=
  fun d hd => ⟨d, hd, rfl, fun _ part hpart => ⟨part, hpart, fun rows hrows => ⟨rows, hrows, h rows⟩⟩⟩

theorem Emulates.mono {plan plan' : PhysicalPlan F} (h : Emulates R plan plan')
    (hR : ∀ rows rows', R rows rows' → R' rows rows') : Emulates R' plan plan' := by
  intro d hd
  obtain ⟨d', hd', hn, hparts⟩ := h d hd
  refine ⟨d', hd', hn, fun pid part hpart => ?_⟩
  obtain ⟨part', hpart', hrows⟩ := hparts pid part hpart
  refine ⟨part', hpart', fun rows hlist => ?_⟩
  obtain ⟨rows', hlist', hrel⟩ := hrows rows hlist
  exact ⟨rows', hlist', hR rows rows' hrel⟩

omit [PyRuntime F] [PyHost F] in
/-- An operator that reads its whole input at once. -/
theorem Replays.bind {x x' : Py (Partition F)} (h : Replays Eq x x')
    {f : Partition F → Py (Partition F)}
    (hreads : ∀ part mid, f part = .ok mid → ∃ rows, part.toList = .ok rows)
    (hcongr : ∀ part part' : Partition F, part'.toList = part.toList → f part' = f part) :
    Replays Eq (x >>= f) (x' >>= f) := by
  intro mid hmid
  obtain ⟨part, hpart, hf⟩ := ExceptList.bind_eq_ok.mp hmid
  obtain ⟨part', hpart', hrows⟩ := h part hpart
  obtain ⟨rows, hlist⟩ := hreads part mid hf
  obtain ⟨_, hlist', rfl⟩ := hrows rows hlist
  refine ⟨mid, ?_, fun rows hrows => ⟨rows, hrows, rfl⟩⟩
  rw [hpart', ExceptList.bind_ok, hcongr part part' (hlist'.trans hlist.symm), hf]

theorem replays_hashAggregate {x x' : Py (Partition F)} (h : Replays Eq x x')
    (spec : HashAggregate F) (pid : ℕ) :
    Replays Eq (x >>= hashAggregatePartition spec pid) (x' >>= hashAggregatePartition spec pid) := by
  refine h.bind (fun part mid hmid => ?_) (fun part part' hsame => ?_)
  · obtain ⟨_, -, hmid⟩ := ExceptList.bind_eq_ok.mp hmid
    obtain ⟨rows, hrows, -⟩ := ExceptList.bind_eq_ok.mp hmid
    exact ⟨rows, hrows⟩
  · rw [hashAggregatePartition, hashAggregatePartition, hsame]

theorem replays_sort {x x' : Py (Partition F)} (h : Replays Eq x x') (spec : Sorting F) (pid : ℕ) :
    Replays Eq (x >>= sortPartition spec pid) (x' >>= sortPartition spec pid) := by
  refine h.bind (fun part mid hmid => ?_) (fun part part' hsame => ?_)
  · obtain ⟨rows, hrows, -⟩ := ExceptList.bind_eq_ok.mp hmid
    exact ⟨rows, hrows⟩
  · rw [sortPartition, sortPartition, hsame]

/-- A plan that means a dataset has the dataset's rows. -/
theorem denotedRows_of_dataset {plan : PhysicalPlan F} {dataset : Dataset F}
    {parts : List (List (Record F))}
    (hd : denote plan = .ok ⟨dataset.numPartitions, dataset.partition⟩)
    (hparts : dataset.partitions.mapM Partition.toList = .ok parts) :
    denotedRows plan = .ok parts := by
  rw [denotedRows, hd, ExceptList.bind_ok, ExceptList.mapM_eq_ok, List.forall₂_iff_get]
  obtain ⟨hlen, hget⟩ := List.forall₂_iff_get.mp (ExceptList.mapM_eq_ok.mp hparts)
  have hnum : dataset.numPartitions = dataset.partitions.length := rfl
  refine ⟨by rw [List.length_range, hnum, hlen], fun i h₁ h₂ => ?_⟩
  have hi : i < dataset.partitions.length := by omega
  have hpart : dataset.partition i = .ok dataset.partitions[i] := by
    rw [Dataset.partition, List.getElem?_eq_getElem hi]
  simp only [List.get_eq_getElem, List.getElem_range, hpart, ExceptList.bind_ok]
  exact hget i hi h₂

namespace Emulates

variable {child child' left left' right right' : PhysicalPlan F}

/-- Nodes with one child that keep its partitioning. -/
theorem node {plan plan' : PhysicalPlan F} {f f' : ℕ → Py (Partition F) → Py (Partition F)}
    (h : Emulates R child child')
    (hplan : denote plan = denote child >>= fun d =>
      pure ⟨d.numPartitions, fun pid => f pid (d.part pid)⟩)
    (hplan' : denote plan' = denote child' >>= fun d =>
      pure ⟨d.numPartitions, fun pid => f' pid (d.part pid)⟩)
    (hf : ∀ pid x x', Replays R x x' → Replays R' (f pid x) (f' pid x')) :
    Emulates R' plan plan' := by
  intro d hd
  rw [hplan] at hd
  obtain ⟨c, hc, hd⟩ := ExceptList.bind_eq_ok.mp hd
  cases hd
  obtain ⟨c', hc', hn, hparts⟩ := h c hc
  have hd' : denote plan' = .ok ⟨c'.numPartitions, fun pid => f' pid (c'.part pid)⟩ := by
    rw [hplan', hc']
    rfl
  exact ⟨_, hd', hn, fun pid => hf pid _ _ (hparts pid)⟩

theorem filterExec {condition : Expression F} (h : Emulates R child child')
    (hf : ∀ rows rows' out, R rows rows' → filterRows condition rows = .ok out →
      ∃ out', filterRows condition rows' = .ok out' ∧ R' out out') :
    Emulates R' (.filterExec child condition) (.filterExec child' condition) := by
  refine h.node rfl rfl (fun pid x x' hx mid hmid => ?_)
  obtain ⟨part, hpart, rfl⟩ := ExceptList.map_eq_ok.mp hmid
  obtain ⟨part', hpart', hrows⟩ := hx part hpart
  refine ⟨_, ExceptList.map_eq_ok.mpr ⟨part', hpart', rfl⟩, fun out hout => ?_⟩
  obtain ⟨rows, hlist, hfilter⟩ := ExceptList.bind_eq_ok.mp hout
  obtain ⟨rows', hlist', hrel⟩ := hrows rows hlist
  obtain ⟨out', hout', hrel'⟩ := hf rows rows' out hrel hfilter
  exact ⟨out', ExceptList.bind_eq_ok.mpr ⟨rows', hlist', hout'⟩, hrel'⟩

theorem projectExec {columns : List (Expression F)} {schema schema' : Schema}
    (hnames : schema'.fieldNames = schema.fieldNames) (h : Emulates R child child')
    (hf : ∀ rows rows' out, R rows rows' → projectRows schema.fieldNames columns rows = .ok out →
      projectRows schema.fieldNames columns rows' = .ok out) :
    Emulates Eq (.projectExec child columns schema) (.projectExec child' columns schema') := by
  refine h.node rfl rfl (fun pid x x' hx mid hmid => ?_)
  obtain ⟨part, hpart, rfl⟩ := ExceptList.map_eq_ok.mp hmid
  obtain ⟨part', hpart', hrows⟩ := hx part hpart
  refine ⟨_, ExceptList.map_eq_ok.mpr ⟨part', hpart', rfl⟩, fun out hout => ⟨out, ?_, rfl⟩⟩
  obtain ⟨rows, hlist, hproject⟩ := ExceptList.bind_eq_ok.mp hout
  obtain ⟨rows', hlist', hrel⟩ := hrows rows hlist
  refine ExceptList.bind_eq_ok.mpr ⟨rows', hlist', ?_⟩
  rw [hnames]
  exact hf rows rows' out hrel hproject

theorem hashAggregateExec (h : Emulates Eq child child') (spec : HashAggregate F) :
    Emulates Eq (.hashAggregateExec child spec) (.hashAggregateExec child' spec) :=
  h.node rfl rfl (fun pid _ _ hx => replays_hashAggregate hx spec pid)

theorem sortExec (h : Emulates Eq child child') (spec : Sorting F) :
    Emulates Eq (.sortExec child spec) (.sortExec child' spec) :=
  h.node rfl rfl (fun pid _ _ hx => replays_sort hx spec pid)

/-- What an exchange writes is the same, so every target is. -/
theorem exchangeExec (h : Emulates Eq child child') (n : ℕ) (exprs : List (Expression F))
    (isBroadcast : Bool) (rangeBoundaries : Option (List (Value F))) :
    Emulates Eq (.exchangeExec child n exprs isBroadcast rangeBoundaries)
      (.exchangeExec child' n exprs isBroadcast rangeBoundaries) := by
  intro d hd
  obtain ⟨c, hc, hd⟩ := ExceptList.bind_eq_ok.mp hd
  obtain ⟨written, hwritten, hd⟩ := ExceptList.bind_eq_ok.mp hd
  cases hd
  obtain ⟨c', hc', hn, hparts⟩ := h c hc
  have hsame : (List.range c'.numPartitions).mapM (fun pid => do
      let part ← c'.part pid
      exchangeRows n exprs rangeBoundaries part) = .ok written := by
    rw [hn, ExceptList.mapM_eq_ok]
    refine (ExceptList.mapM_eq_ok.mp hwritten).imp (fun pid tagged htagged => ?_)
    obtain ⟨part, hpart, htagged⟩ := ExceptList.bind_eq_ok.mp htagged
    obtain ⟨rows, hlist, htagged⟩ := ExceptList.bind_eq_ok.mp htagged
    obtain ⟨part', hpart', hrows⟩ := hparts pid part hpart
    obtain ⟨_, hlist', rfl⟩ := hrows rows hlist
    rw [hpart', ExceptList.bind_ok, exchangeRows, hlist', ExceptList.bind_ok]
    exact htagged
  have hd' : denote (.exchangeExec child' n exprs isBroadcast rangeBoundaries) = .ok ⟨n, fun pid =>
      .ok (rowsPartition pid child'.schema (readTarget written (targetOf isBroadcast pid)))⟩ := by
    simp only [denote, hc', ExceptList.bind_ok, hsame]
    rfl
  refine ⟨_, hd', rfl, fun pid part hpart => ?_⟩
  cases hpart
  exact ⟨_, rfl, fun rows hrows => ⟨rows, hrows, rfl⟩⟩

theorem hashJoinExec (hl : Emulates Eq left left') (hr : Emulates Eq right right')
    (leftKeys rightKeys : List (Expression F)) (on : List String) (schema : Schema) :
    Emulates Eq (.hashJoinExec left right leftKeys rightKeys on schema)
      (.hashJoinExec left' right' leftKeys rightKeys on schema) := by
  intro d hd
  obtain ⟨l, hdl, hd⟩ := ExceptList.bind_eq_ok.mp hd
  obtain ⟨r, hdr, hd⟩ := ExceptList.bind_eq_ok.mp hd
  cases hd
  obtain ⟨l', hdl', hn, hlparts⟩ := hl l hdl
  obtain ⟨r', hdr', -, hrparts⟩ := hr r hdr
  have hd' : denote (.hashJoinExec left' right' leftKeys rightKeys on schema) =
      .ok ⟨l'.numPartitions, fun pid => do
        let leftPart ← l'.part pid
        let rightPart ← r'.part pid
        hashJoinPartition leftKeys rightKeys on schema pid leftPart rightPart⟩ := by
    simp only [denote, hdl', hdr', ExceptList.bind_ok]
    rfl
  refine ⟨_, hd', hn, fun pid mid hmid => ?_⟩
  obtain ⟨lpart, hlpart, hmid⟩ := ExceptList.bind_eq_ok.mp hmid
  obtain ⟨rpart, hrpart, hjoin⟩ := ExceptList.bind_eq_ok.mp hmid
  obtain ⟨lpart', hlpart', hlrows⟩ := hlparts pid lpart hlpart
  obtain ⟨rpart', hrpart', hrrows⟩ := hrparts pid rpart hrpart
  obtain ⟨lrows, hllist, hrest⟩ := ExceptList.bind_eq_ok.mp hjoin
  obtain ⟨table, htable, hrest⟩ := ExceptList.bind_eq_ok.mp hrest
  obtain ⟨rrows, hrlist, hrest⟩ := ExceptList.bind_eq_ok.mp hrest
  obtain ⟨_, hllist', rfl⟩ := hlrows lrows hllist
  obtain ⟨_, hrlist', rfl⟩ := hrrows rrows hrlist
  refine ⟨mid, ?_, fun rows hrows => ⟨rows, hrows, rfl⟩⟩
  simp only [hlpart', hrpart', ExceptList.bind_ok]
  rw [← hjoin, hashJoinPartition, hashJoinPartition, hllist', hllist, hrlist', hrlist]

/-- The same rows in the same partitions. -/
theorem denotedRows (h : Emulates Eq child child') {parts : List (List (Record F))}
    (hd : MiniSpark.denotedRows child = .ok parts) : MiniSpark.denotedRows child' = .ok parts := by
  obtain ⟨d, hden, hd⟩ := ExceptList.bind_eq_ok.mp hd
  obtain ⟨d', hden', hn, hparts⟩ := h d hden
  rw [MiniSpark.denotedRows, hden', ExceptList.bind_ok, hn, ExceptList.mapM_eq_ok]
  refine (ExceptList.mapM_eq_ok.mp hd).imp (fun pid rows hrows => ?_)
  obtain ⟨part, hpart, hlist⟩ := ExceptList.bind_eq_ok.mp hrows
  obtain ⟨part', hpart', hrel⟩ := hparts pid part hpart
  obtain ⟨_, hlist', rfl⟩ := hrel rows hlist
  rw [hpart', ExceptList.bind_ok, hlist']

/-- Whole-dataset execution yields the same rows. -/
theorem execute (h : Emulates Eq child child') (hchild : isOracleExecutable child = true)
    (hchild' : isOracleExecutable child' = true) {dataset : Dataset F}
    (hd : MiniSpark.execute child = .ok dataset) :
    ∃ dataset', MiniSpark.execute child' = .ok dataset' ∧
      ∀ rows, dataset.iterRecords = .ok rows → dataset'.iterRecords = .ok rows := by
  obtain ⟨_, hexec, hden⟩ := execute_denotes hchild
  obtain rfl := Except.ok.inj (hd.symm.trans hexec)
  obtain ⟨dataset', hexec', hden'⟩ := execute_denotes hchild'
  refine ⟨dataset', hexec', fun rows hrows => ?_⟩
  obtain ⟨parts, hparts, hrows⟩ := ExceptList.bind_eq_ok.mp hrows
  cases hrows
  have hdenoted := h.denotedRows (denotedRows_of_dataset hden hparts)
  obtain ⟨_, hexec'', hiter⟩ := execute_iterRecords hchild' hdenoted
  obtain rfl := Except.ok.inj (hexec'.symm.trans hexec'')
  exact hiter

end Emulates

section Planning

variable {child child' : PhysicalPlan F}

/-- The planner finds the same boundaries in the same rows. -/
theorem Emulates.sortRangeBoundaries (h : Emulates Eq child child')
    (hexec : isOracleExecutable child' = isOracleExecutable child) {name : String}
    {ascending : Bool} {schema : Schema} {n : ℕ} {exchange : SortExchange F}
    (hex : sortRangeBoundaries child name ascending schema n = .ok exchange) :
    MiniSpark.sortRangeBoundaries child' name ascending schema n = .ok exchange := by
  simp only [MiniSpark.sortRangeBoundaries, hexec] at hex ⊢
  by_cases hsingle : n ≤ 1 ∨ ¬ ((schema.getField? name).map Field.dataType = some .int ∨
      (schema.getField? name).map Field.dataType = some .float) ∨ isOracleExecutable child = false
  · rw [if_pos hsingle] at hex ⊢
    exact hex
  · rw [if_neg hsingle] at hex ⊢
    obtain ⟨dataset, hdataset, hex⟩ := ExceptList.bind_eq_ok.mp hex
    obtain ⟨range, hcolumn, hex⟩ := ExceptList.bind_eq_ok.mp hex
    have htrue : isOracleExecutable child = true := by
      by_contra hfalse
      exact hsingle (Or.inr (Or.inr (Bool.eq_false_iff.mpr hfalse)))
    obtain ⟨dataset', hdataset', hrows⟩ := h.execute htrue (hexec.trans htrue) hdataset
    have hcolumn' : columnRange dataset' name = .ok range := by
      obtain ⟨rows, hiter, hfold⟩ := ExceptList.bind_eq_ok.mp hcolumn
      rw [columnRange, hrows rows hiter]
      exact hfold
    rw [hdataset', ExceptList.bind_ok, hcolumn']
    exact hex

theorem Emulates.planSort (h : Emulates Eq child child')
    (hexec : isOracleExecutable child' = isOracleExecutable child) {n : ℕ} {spill : ℤ}
    {keys : List (Expression F × Bool)} {schema : Schema} {physical : PhysicalPlan F}
    (hp : planSort n spill child keys schema = .ok physical) :
    ∃ physical', MiniSpark.planSort n spill child' keys schema = .ok physical' ∧
      Emulates Eq physical physical' ∧ isOracleExecutable physical' = isOracleExecutable physical := by
  unfold MiniSpark.planSort at hp ⊢
  split at hp
  · cases hp
  · next name ascending rest =>
      obtain ⟨exchange, hexchange, hp⟩ := ExceptList.bind_eq_ok.mp hp
      cases hp
      simp only [h.sortRangeBoundaries hexec hexchange, ExceptList.bind_ok]
      exact ⟨_, rfl, ((h.sortExec _).exchangeExec _ _ _ _).sortExec _, rfl⟩
  · cases hp

theorem Emulates.planAggregate (h : Emulates Eq child child') {n : ℕ} {spill : ℤ}
    {groupBy aggregates : List (Expression F)} {childSchema schema : Schema}
    {physical : PhysicalPlan F}
    (hp : planAggregate n spill child groupBy aggregates childSchema schema = .ok physical) :
    ∃ physical', MiniSpark.planAggregate n spill child' groupBy aggregates childSchema schema =
        .ok physical' ∧
      Emulates Eq physical physical' ∧ isOracleExecutable physical' = isOracleExecutable physical := by
  obtain ⟨partialSchema, hpartials, hp⟩ := ExceptList.bind_eq_ok.mp hp
  cases hp
  refine ⟨_, ?_, ((h.hashAggregateExec _).exchangeExec _ _ _ _).hashAggregateExec _, rfl⟩
  rw [MiniSpark.planAggregate, hpartials]
  rfl

theorem Emulates.planJoin {left left' right right' : PhysicalPlan F} (hl : Emulates Eq left left')
    (hr : Emulates Eq right right') (n : ℕ) (on : List String) (broadcast : Bool) (schema : Schema) :
    Emulates Eq (planJoin n left right on broadcast schema)
        (MiniSpark.planJoin n left' right' on broadcast schema) ∧
      isOracleExecutable (MiniSpark.planJoin n left' right' on broadcast schema) =
        isOracleExecutable (MiniSpark.planJoin n left right on broadcast schema) := by
  cases broadcast with
  | true => exact ⟨hl.hashJoinExec (hr.exchangeExec _ _ _ _) _ _ _ _, rfl⟩
  | false => exact ⟨(hl.exchangeExec _ _ _ _).hashJoinExec (hr.exchangeExec _ _ _ _) _ _ _ _, rfl⟩

end Planning

end MiniSpark
