import MiniSpark.KeyedFold
import MiniSpark.RowOperators

/-!
# The hash join is the nested loop

Building a table on the left rows and probing it with the right rows yields,
for each right row in order, the left rows with an equal key in order.
-/
namespace MiniSpark

variable {F : Type} [PyRuntime F]

/-- Do a left and a right row have equal keys? -/
def keysMatch (leftKeys rightKeys : List (Expression F)) (l r : Record F) : Bool :=
  ExceptList.verdict (fun (p : Record F × Record F) => do
    let a ← tupleKey leftKeys p.1
    let b ← tupleKey rightKeys p.2
    pure (a == b)) (l, r)

/-- The joined rows of one right row. -/
def joinedWith (leftKeys rightKeys : List (Expression F)) (on : List String)
    (left : List (Record F)) (r : Record F) : List (Record F) :=
  (left.filter (fun l => keysMatch leftKeys rightKeys l r)).map (fun l => mergeRow on l r)

/-- The nested loop, right rows outermost. -/
def nestedLoop (leftKeys rightKeys : List (Expression F)) (on : List String)
    (left right : List (Record F)) : List (Record F) :=
  right.flatMap (joinedWith leftKeys rightKeys on left)

/-- Every row has a key. -/
def HaveKeys (keys : List (Expression F)) (rows : List (Record F)) : Prop :=
  ∀ r ∈ rows, ∃ k, tupleKey keys r = .ok k

lemma keysMatch_of_ok {leftKeys rightKeys : List (Expression F)} {l r : Record F}
    {a b : List (Value F)} (ha : tupleKey leftKeys l = .ok a) (hb : tupleKey rightKeys r = .ok b) :
    keysMatch leftKeys rightKeys l r = (a == b) := by
  simp [keysMatch, ExceptList.verdict, ha, hb]

lemma buildTable_eq_foldlM (keys : List (Expression F)) (rows : List (Record F)) :
    buildTable keys rows =
      rows.foldlM (OrderedDict.foldStep (tupleKey keys) OrderedDict.appendTo) OrderedDict.empty :=
  rfl

/-- Probing the table with a key finds the left rows of that key. -/
lemma buildTable_get? {leftKeys rightKeys : List (Expression F)} {left : List (Record F)}
    {table : OrderedDict (List (Value F)) (List (Record F))}
    (h : buildTable leftKeys left = .ok table) {r : Record F} {key : List (Value F)}
    (hkey : tupleKey rightKeys r = .ok key) :
    (table.get? key).getD [] = left.filter (fun l => keysMatch leftKeys rightKeys l r) := by
  rw [buildTable_eq_foldlM] at h
  rw [OrderedDict.grouping_get? h]
  refine List.filter_congr (fun l hl => ?_)
  obtain ⟨k, hk⟩ := OrderedDict.foldStep_keys_ok h l hl
  rw [OrderedDict.hasKey_of_ok hk, keysMatch_of_ok hk hkey]

/-- The join runs exactly when every row has a key, and is then the nested loop. -/
theorem hashJoinRows_eq_ok {leftKeys rightKeys : List (Expression F)} {on : List String}
    {left right out : List (Record F)} :
    hashJoinRows leftKeys rightKeys on left right = .ok out ↔
      HaveKeys leftKeys left ∧ HaveKeys rightKeys right ∧
        out = nestedLoop leftKeys rightKeys on left right := by
  have hprobe : ∀ table, buildTable leftKeys left = .ok table →
      HaveKeys rightKeys right →
      right.mapM (fun rightRow => do
        let key ← tupleKey rightKeys rightRow
        pure (((table.get? key).getD []).map (fun leftRow => mergeRow on leftRow rightRow))) =
      .ok (right.map (joinedWith leftKeys rightKeys on left)) := by
    intro table htable hright
    refine ExceptList.mapM_ok_of_forall (fun r hr => ?_)
    obtain ⟨key, hkey⟩ := hright r hr
    simp only [hkey, ExceptList.bind_ok, ExceptList.pure_eq_ok, buildTable_get? htable hkey,
      joinedWith]
  constructor
  · intro h
    obtain ⟨table, htable, h⟩ := ExceptList.bind_eq_ok.mp h
    obtain ⟨parts, hparts, h⟩ := ExceptList.bind_eq_ok.mp h
    have hright : HaveKeys rightKeys right := by
      intro r hr
      obtain ⟨_, _, hrow⟩ := ExceptList.mapM_ok_mem hparts hr
      obtain ⟨key, hkey, _⟩ := ExceptList.bind_eq_ok.mp hrow
      exact ⟨key, hkey⟩
    rw [hprobe table htable hright, Except.ok.injEq] at hparts
    cases h
    refine ⟨OrderedDict.foldStep_keys_ok (buildTable_eq_foldlM leftKeys left ▸ htable), hright, ?_⟩
    rw [← hparts, nestedLoop, List.flatMap_def]
  · rintro ⟨hleft, hright, rfl⟩
    obtain ⟨table, htable⟩ := OrderedDict.grouping_ok OrderedDict.empty hleft
    rw [← buildTable_eq_foldlM] at htable
    simp only [hashJoinRows, probeTable, htable, ExceptList.bind_ok, hprobe table htable hright]
    rw [nestedLoop, List.flatMap_def]
    rfl

omit [PyRuntime F] in
/-- The value under a name in a joined row: a right column not in `on`, else the left row's. -/
theorem mergeRow_get? (on : List String) (l r : Record F) (n : String) :
    (mergeRow on l r).get? n = if n ∈ on then l.get? n else (r.get? n).or (l.get? n) := by
  have hnd : ((r.items.filter (fun p => p.1 ∉ on)).map Prod.fst).Nodup :=
    (OrderedDict.distinct_keys_iff.mp r.distinct).sublist (List.filter_sublist.map _)
  rw [mergeRow, OrderedDict.get?_foldl_set hnd]
  have hfind : OrderedDict.findItem n (r.items.filter (fun p => p.1 ∉ on)) =
      if n ∈ on then none else OrderedDict.findItem n r.items := by
    rw [OrderedDict.findItem, List.find?_filter, OrderedDict.findItem]
    split
    · next hn =>
        rw [List.find?_eq_none]
        rintro p _ hp
        simp only [decide_eq_true_eq, beq_iff_eq] at hp
        exact hp.1 (hp.2 ▸ hn)
    · next hn =>
        congr 1
        funext p
        by_cases hp : p.1 = n
        · simp [hp, hn]
        · simp [hp]
  rw [hfind]
  split <;> rfl

end MiniSpark
