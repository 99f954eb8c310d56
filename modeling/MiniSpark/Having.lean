import MiniSpark.AggregateHistories
import MiniSpark.ExpressionTexts
import MiniSpark.SqlAggregates

/-!
# Aggregates in HAVING

An aggregate in `HAVING` stands for the output column of the entry of the select list that is
the same expression. On an output row of the aggregation that column holds the value of the
aggregate over the rows of the group.
-/
namespace MiniSpark

variable {F : Type} [PyRuntime F]

namespace Expression

omit [PyRuntime F] in
/-- The aggregates an expression refers to, the outermost ones. -/
def aggregateCalls : Expression F → List (Expression F)
  | .column _ => []
  | .literal _ => []
  | .aliased child _ => child.aggregateCalls
  | .binary _ left right => left.aggregateCalls ++ right.aggregateCalls
  | .not child => child.aggregateCalls
  | .isNull child => child.aggregateCalls
  | .isNotNull child => child.aggregateCalls
  | .countStar => [.countStar]
  | .aggregate name child => [.aggregate name child]

/-- The value of an expression whose aggregates have the values `final`. -/
def evaluateWith (final : AggregateFunction F → Py (Value F)) :
    Expression F → Record F → Py (Value F)
  | .column name, record => lookupColumn record name
  | .literal value, _ => .ok value
  | .aliased child _, record => child.evaluateWith final record
  | .binary op left right, record => do
      let a ← left.evaluateWith final record
      let b ← right.evaluateWith final record
      op.op a b
  | .not child, record => do
      let v ← child.evaluateWith final record
      pure (.bool (!v.truthy))
  | .isNull child, record => do
      let v ← child.evaluateWith final record
      pure (.bool v.isNone)
  | .isNotNull child, record => do
      let v ← child.evaluateWith final record
      pure (.bool (!v.isNone))
  | .countStar, _ => final ⟨.count, none⟩
  | .aggregate name child, _ => final ⟨name, some child⟩

end Expression

section Substitution

variable {items : List (Expression F)} (hF : FloatReads F)
include hF

omit hF in
/-- When every item prints, the first item with the text of the aggregate is found. -/
lemma matchingColumn_of_prints (hitems : ∀ item ∈ items, item.prints = true) (target : String) :
    matchingColumn target items = .ok
      ((items.find? (fun item => item.unalias.text == target)).map
        (fun item => .column item.columnName)) := by
  induction items with
  | nil => rfl
  | cons item items ih =>
      obtain ⟨hitem, hrest⟩ := List.forall_mem_cons.mp hitems
      rw [matchingColumn, Expression.repr_eq, Expression.prints_unalias hitem, List.find?_cons]
      by_cases htext : item.unalias.text = target
      · simp [letThrough, Except.mapError, htext, Expression.outputName_eq,
          Expression.namePrints_of_prints hitem, ExceptList.bind_ok]
      · have hne : (item.unalias.text == target) = false := by simpa using htext
        simpa [letThrough, Except.mapError, htext, hne, ExceptList.bind_ok] using ih hrest

/-- An aggregate is found when it is an entry, whatever its alias. -/
lemma outputColumnOf_cases (hitems : ∀ item ∈ items, item.prints = true) {a : Expression F}
    (ha : a.Readable) (hprints : a.prints = true) :
    (∃ item ∈ items, item.unalias = a ∧
      outputColumnOf items a = .ok (.column item.columnName)) ∨
    (∀ item ∈ items, item.unalias ≠ a) ∧
      ∃ message, outputColumnOf items a = .error (.parseError message) := by
  have htarget : letThrough a.repr = .ok a.text := by rw [a.repr_eq, hprints, printed_true]; rfl
  unfold outputColumnOf
  simp only [htarget, ExceptList.bind_ok, matchingColumn_of_prints hitems]
  cases hfind : items.find? (fun item => item.unalias.text == a.text) with
  | none =>
      refine Or.inr ⟨fun item hitem heq => ?_, _, rfl⟩
      have hne := List.find?_eq_none.mp hfind item hitem
      rw [heq] at hne
      exact hne (beq_self_eq_true _)
  | some item =>
      have htext : item.unalias.text = a.text := by
        simpa using List.find?_some (p := fun item : Expression F => item.unalias.text == a.text) hfind
      refine Or.inl ⟨item, List.mem_of_find?_eq_some hfind, ?_, rfl⟩
      exact (Expression.text_inj hF ha htext.symm).symm

omit [PyRuntime F] hF in
/-- An aggregate that is not in the select list. -/
def NotSelected (items : List (Expression F)) (a : Expression F) : Prop :=
  ∀ item ∈ items, item.unalias ≠ a

omit hF in
/-- The row holds the value of each entry under its output name. -/
def HoldsValues (items : List (Expression F)) (final : AggregateFunction F → Py (Value F))
    (row : Record F) : Prop :=
  ∀ item ∈ items, ∀ f, unwrapAggregate item = .ok f →
    ∃ v, row.get? item.columnName = some v ∧ final f = .ok v

/-- The reference to the output column has the value of the aggregate. -/
lemma outputColumnOf_value (hitems : ∀ item ∈ items, item.prints = true) {a e : Expression F}
    {f : AggregateFunction F} (ha : a.Readable) (hprints : a.prints = true)
    (hf : ∀ item : Expression F, item.unalias = a → unwrapAggregate item = .ok f)
    (h : outputColumnOf items a = .ok e) {final : AggregateFunction F → Py (Value F)}
    {row : Record F} (hrow : HoldsValues items final row) : e.evaluate row = final f := by
  obtain ⟨item, hitem, heq, hcolumn⟩ | ⟨-, message, herror⟩ := outputColumnOf_cases hF hitems ha hprints
  · cases hcolumn.symm.trans h
    obtain ⟨v, hv, hfinal⟩ := hrow item hitem f (hf item heq)
    rw [hfinal, Expression.evaluate_column, Expression.lookupColumn_eq_ok, hv]
  · cases herror.symm.trans h

/-- What the substitution returns has the value of the original, its aggregates replaced. -/
theorem substituteAggregates_value (hitems : ∀ item ∈ items, item.prints = true)
    {e e' : Expression F} (he : e.Unaliased) (hr : e.Readable) (hprints : e.prints = true)
    (h : substituteAggregates items e = .ok e') {final : AggregateFunction F → Py (Value F)}
    {row : Record F} (hrow : HoldsValues items final row) :
    e'.evaluate row = e.evaluateWith final row := by
  induction e generalizing e' with
  | column name | literal value =>
      cases h
      rfl
  | aliased child name ih => exact absurd he id
  | binary op left right ihl ihr =>
      obtain ⟨l, hl, h⟩ := ExceptList.bind_eq_ok.mp h
      obtain ⟨r, hright, h⟩ := ExceptList.bind_eq_ok.mp h
      cases h
      obtain ⟨hpl, hpr⟩ := Bool.and_eq_true_iff.mp hprints
      rw [Expression.evaluate, Expression.evaluateWith, ihl he.1 hr.1 hpl hl,
        ihr he.2 hr.2 hpr hright]
  | not child ih | isNull child ih | isNotNull child ih =>
      obtain ⟨c, hc, h⟩ := ExceptList.bind_eq_ok.mp h
      cases h
      rw [Expression.evaluate, Expression.evaluateWith, ih he hr hprints hc]
  | countStar =>
      exact outputColumnOf_value hF hitems
        (show (Expression.countStar : Expression F).Readable from trivial) rfl
        (fun item hitem => by rw [unwrapAggregate, hitem]) h hrow
  | aggregate name child ih =>
      exact outputColumnOf_value hF hitems hr hprints
        (fun item hitem => by rw [unwrapAggregate, hitem]) h hrow

/-- The substitution fails only at an aggregate that is not in the select list. -/
theorem substituteAggregates_error (hitems : ∀ item ∈ items, item.prints = true)
    {e : Expression F} {err : SqlError} (hr : e.Readable) (hprints : e.prints = true)
    (h : substituteAggregates items e = .error err) :
    (∃ message, err = .parseError message) ∧ ∃ a ∈ e.aggregateCalls, NotSelected items a := by
  have hcall : ∀ a : Expression F, a.Readable → a.prints = true →
      outputColumnOf items a = .error err →
      (∃ message, err = .parseError message) ∧ NotSelected items a := by
    intro a ha hp herror
    obtain ⟨item, -, -, hcolumn⟩ | ⟨hnone, message, hmessage⟩ :=
      outputColumnOf_cases hF hitems ha hp
    · cases hcolumn.symm.trans herror
    · cases hmessage.symm.trans herror
      exact ⟨⟨message, rfl⟩, hnone⟩
  induction e with
  | column name | literal value | aliased child name ih => cases h
  | binary op left right ihl ihr =>
      obtain ⟨hpl, hpr⟩ := Bool.and_eq_true_iff.mp hprints
      obtain hl | ⟨l, -, h⟩ := ExceptList.bind_eq_error.mp h
      · obtain ⟨hmessage, a, ha, hnone⟩ := ihl hr.1 hpl hl
        exact ⟨hmessage, a, List.mem_append_left _ ha, hnone⟩
      · obtain hright | ⟨r, -, h⟩ := ExceptList.bind_eq_error.mp h
        · obtain ⟨hmessage, a, ha, hnone⟩ := ihr hr.2 hpr hright
          exact ⟨hmessage, a, List.mem_append_right _ ha, hnone⟩
        · cases h
  | not child ih | isNull child ih | isNotNull child ih =>
      obtain hc | ⟨c, -, h⟩ := ExceptList.bind_eq_error.mp h
      · exact ih hr hprints hc
      · cases h
  | countStar =>
      obtain ⟨hmessage, hnone⟩ := hcall .countStar trivial rfl h
      exact ⟨hmessage, .countStar, List.mem_singleton_self _, hnone⟩
  | aggregate name child ih =>
      obtain ⟨hmessage, hnone⟩ := hcall (.aggregate name child) hr hprints h
      exact ⟨hmessage, .aggregate name child, List.mem_singleton_self _, hnone⟩

end Substitution

section Rows

variable [PyHost F] {names : List String} {aggregates : List (Expression F)}

omit [PyHost F] in
/-- The rows of the history have the key that the row holds. -/
def GroupedBy (names : List String) (row : Record F) (h : History F) : Prop :=
  ∀ r ∈ h.rows, ∃ k, tupleKey (names.map .column) r = .ok k ∧
    (keyOf names row = k ∨ (keyOf names row == k) = true)

omit [PyHost F] in
/-- Finalized states are the values of the aggregates. -/
lemma finalized_values {aggs : List (AggregateFunction F)} {h : History F}
    {states values : List (Value F)} (hstates : List.Forall₂ (fun a s => h.state a = .ok s) aggs states)
    (hvalues : (aggs.zip states).mapM (fun p => p.1.name.finalize p.2) = .ok values) :
    List.Forall₂ (fun a v => h.value a = .ok v) aggs values := by
  induction hstates generalizing values with
  | nil =>
      cases hvalues
      exact .nil
  | cons hs _ ih =>
      rw [List.zip_cons_cons, List.mapM_cons] at hvalues
      obtain ⟨v, hv, hvalues⟩ := ExceptList.bind_eq_ok.mp hvalues
      obtain ⟨vs, hvs, hvalues⟩ := ExceptList.bind_eq_ok.mp hvalues
      cases hvalues
      refine .cons ?_ (ih hvs)
      rw [History.value, hs]
      exact hv

omit [PyHost F] in
/-- A final row holds the values over a history of its batch. -/
lemma finalRow_history {aggs : List (AggregateFunction F)} {row : Record F}
    {batch : List (Record F)} (haggs : aggregates.mapM unwrapAggregate = .ok aggs)
    (hnd : (names ++ aggregates.map Expression.columnName).Nodup)
    (hrow : FinalRowOf names (aggregates.map Expression.columnName) aggs (HistoryOf names aggs) row
      batch) :
    ∃ h : History F, (GroupedBy names row h ∧ HoldsValues aggregates h.value row) ∧
      h.rows = batch := by
  have hlen : (aggregates.map Expression.columnName).length = aggs.length := by
    rw [List.length_map, ExceptList.mapM_length haggs]
  obtain ⟨states, values, ⟨h, rfl, -, hkeys, hstates⟩, hvalues, -, houts⟩ :=
    hrow.columns historyOf_lengths hlen hnd
  refine ⟨h, ⟨hkeys, fun item hitem f hf => ?_⟩, rfl⟩
  rw [List.forall₂_map_left_iff] at houts
  have hentries := Dealing.forall₂_through (ExceptList.mapM_eq_ok.mp haggs)
    (finalized_values hstates hvalues).flip
  obtain ⟨v, -, hv, g, hg, hvalue⟩ := Dealing.exists_partner
    (List.Forall₂.mp (fun _ _ hget hentry => And.intro hget hentry) houts hentries).flip hitem
  obtain rfl : f = g := Except.ok.inj (hf.symm.trans hg)
  exact ⟨v, hv, hvalue⟩

/-- Every output row of an aggregation holds the values over the rows of its group. -/
theorem aggregate_outputRows {child : LogicalPlan F} {c plan : PhysicalPlan F} {n : ℕ} {spill : ℤ}
    {parts outs : List (List (Record F))} (hc : translate n spill child = .ok c)
    (hplan : translate n spill (.aggregate child (names.map .column) aggregates) = .ok plan)
    (hd : denotedRows c = .ok parts) (houts : denotedRows plan = .ok outs) :
    ∃ histories : List (History F), (histories.flatMap History.rows).Perm parts.flatten ∧
      List.Forall₂ (fun row h => GroupedBy names row h ∧ HoldsValues aggregates h.value row)
        outs.flatten histories := by
  rw [translate, hc, ExceptList.bind_ok] at hplan
  obtain ⟨childSchema, -, hplan⟩ := ExceptList.bind_eq_ok.mp hplan
  obtain ⟨schema, hschema, hplan⟩ := ExceptList.bind_eq_ok.mp hplan
  obtain ⟨aggs, haggs⟩ := unwrapAggregates_ok hschema
  obtain ⟨batches, hbatches, hperm⟩ := planAggregate_histories hplan haggs hd houts
  obtain ⟨histories, hrows, hhistories⟩ := Dealing.forall₂_between hbatches
    (fun row batch _ hrow => finalRow_history haggs (aggregateSchema_nodup hschema) hrow)
  refine ⟨histories, ?_, hrows⟩
  have hbatch : histories.map History.rows = batches := by
    rw [← List.forall₂_eq_eq_eq, List.forall₂_map_left_iff]
    exact hhistories
  rwa [List.flatMap_def, hbatch]

end Rows

section Claim

variable [PyHost F] [PyText F]

omit [PyHost F] in
/-- The parser's literals can be read back. -/
lemma parserLiterals_readable
    (hread : ∀ whole fraction, PyRuntime.eq (PyText.readFloat (F := F) whole fraction)
      (PyText.readFloat whole fraction) = true) :
    ParserLiterals (pyNumber (F := F)) Value.Readable where
  number text v h := by
    have hnumber : numberOfText F text = .ok v := by
      unfold pyNumber at h
      cases hv : numberOfText F text with
      | error e => rw [hv] at h; cases h
      | ok w => rw [hv] at h; cases h; rfl
    unfold numberOfText at hnumber
    split at hnumber
    · obtain ⟨x, hx, rfl⟩ := ExceptList.map_eq_ok.mp hnumber
      unfold floatOfText at hx
      split at hx
      · split at hx
        · cases hx
        · cases hx
          exact hread _ _
      · cases hx
    · obtain ⟨i, -, rfl⟩ := ExceptList.map_eq_ok.mp hnumber
      trivial
  str _ := trivial
  bool _ := trivial
  none := trivial
  minusOne := trivial

omit [PyHost F] in
/-- No text that is converted exceeds the limit. -/
lemma parserLiterals_print : ParserLiterals (pyNumber (F := F)) (fun v => v.prints = true) :=
  parserLiterals_prints (fun _ _ h => numberOfText_prints (letThrough_eq_ok.mp h))

omit [PyHost F] [PyText F] in
lemma parserClosed_readable : ParserClosed Value.Readable (Expression.Readable (F := F)) where
  literal _ hv := hv
  column _ := trivial
  binary _ _ _ hl hr := ⟨hl, hr⟩
  not _ h := h
  isNull _ h := h
  isNotNull _ h := h
  countStar := trivial
  aggregate _ _ h := h

/-- `HAVING` resolves an aggregate to the value it has over the rows of the group, or there is
one that the select list does not have. -/
theorem having_resolves (hF : FloatReads F)
    (hread : ∀ whole fraction, PyRuntime.eq (PyText.readFloat (F := F) whole fraction)
      (PyText.readFloat whole fraction) = true)
    {fuel : ℕ} {ts ts' : List Token} {having : Expression F}
    (hparsed : Returns pyNumber (parseExpr fuel) ts having ts') (names : List String)
    {aggregates : List (Expression F)} (hitems : ∀ item ∈ aggregates, item.prints = true) :
    (∃ message, substituteAggregates aggregates having = .error (.parseError message) ∧
      ∃ a ∈ having.aggregateCalls, NotSelected aggregates a) ∨
    ∃ condition, substituteAggregates aggregates having = .ok condition ∧
      containsAggregate condition = false ∧
      ∀ (child : LogicalPlan F) (c plan : PhysicalPlan F) (n : ℕ) (spill : ℤ)
        (parts outs : List (List (Record F))), translate n spill child = .ok c →
        translate n spill (.aggregate child (names.map .column) aggregates) = .ok plan →
        denotedRows c = .ok parts → denotedRows plan = .ok outs →
        ∃ histories : List (History F), (histories.flatMap History.rows).Perm parts.flatten ∧
          List.Forall₂ (fun row h => GroupedBy names row h ∧
            condition.evaluate row = having.evaluateWith h.value row) outs.flatten histories := by
  have hunaliased := (produces_parseExpr parserClosed_unaliased parserLiterals_true fuel).of_returns
    hparsed
  have hprints := (produces_parseExpr parserClosed_prints parserLiterals_print fuel).of_returns
    hparsed
  have hreadable := (produces_parseExpr parserClosed_readable (parserLiterals_readable hread)
    fuel).of_returns hparsed
  cases hsub : substituteAggregates aggregates having with
  | error err =>
      obtain ⟨⟨message, rfl⟩, hmissing⟩ := substituteAggregates_error hF hitems hreadable hprints hsub
      exact Or.inl ⟨message, rfl, hmissing⟩
  | ok condition =>
      refine Or.inr ⟨condition, rfl, substituteAggregates_eq_ok hunaliased hsub, ?_⟩
      intro child c plan n spill parts outs hc hplan hd houts
      obtain ⟨histories, hperm, hrows⟩ := aggregate_outputRows hc hplan hd houts
      refine ⟨histories, hperm, hrows.imp fun row h hrow => ⟨hrow.1, ?_⟩⟩
      exact substituteAggregates_value hF hitems hunaliased hreadable hprints hsub hrow.2

end Claim

section Examples

/-- `COUNT(*) >= 2.5`. -/
def countAtLeast : List Token :=
  [⟨.identifier, "COUNT", 0⟩, ⟨.punctuation, "(", 5⟩, ⟨.operator, "*", 6⟩, ⟨.punctuation, ")", 7⟩,
    ⟨.operator, ">=", 9⟩, ⟨.number, "2.5", 12⟩, ⟨.eof, "", 15⟩]

lemma countAtLeast_parsed : Returns (F := ℚ) pyNumber (parseExpr 9) countAtLeast
    (.binary .greaterEqual .countStar (.literal (.float (5 / 2)))) [⟨.eof, "", 15⟩] := by
  unfold Returns
  decide +kernel

/-- A count under an alias, over groups of `a`. -/
theorem having_resolves_count :
    (∃ message, substituteAggregates [.aliased (.countStar : Expression ℚ) "n"]
        (.binary .greaterEqual .countStar (.literal (.float (5 / 2)))) =
        .error (.parseError message) ∧
      ∃ a ∈ (Expression.binary .greaterEqual .countStar
        (.literal (.float (5 / 2) : Value ℚ))).aggregateCalls, NotSelected [.aliased .countStar "n"] a) ∨
    ∃ condition, substituteAggregates [.aliased (.countStar : Expression ℚ) "n"]
        (.binary .greaterEqual .countStar (.literal (.float (5 / 2)))) = .ok condition ∧
      containsAggregate condition = false ∧
      ∀ (child : LogicalPlan ℚ) (c plan : PhysicalPlan ℚ) (n : ℕ) (spill : ℤ)
        (parts outs : List (List (Record ℚ))), translate n spill child = .ok c →
        translate n spill (.aggregate child (["a"].map .column) [.aliased .countStar "n"]) = .ok plan →
        denotedRows c = .ok parts → denotedRows plan = .ok outs →
        ∃ histories : List (History ℚ), (histories.flatMap History.rows).Perm parts.flatten ∧
          List.Forall₂ (fun row h => GroupedBy ["a"] row h ∧
            condition.evaluate row = (Expression.binary .greaterEqual .countStar
              (.literal (.float (5 / 2)))).evaluateWith h.value row) outs.flatten histories :=
  having_resolves floatReads_exact (fun _ _ => decide_eq_true rfl) countAtLeast_parsed ["a"]
    (List.forall_mem_singleton.mpr rfl)

/-- The text of `SUM(10 ** 4300)`, an aggregate the parser never builds, is beyond the limit. -/
theorem longItem_stops_having :
    Returns (F := ℚ) pyNumber (parseExpr 9) countAtLeast
        (.binary .greaterEqual .countStar (.literal (.float (5 / 2)))) [⟨.eof, "", 15⟩] ∧
      substituteAggregates [.aggregate .sum (.literal (.int longInt))]
        (.binary .greaterEqual .countStar (.literal (.float (5 / 2) : Value ℚ))) =
        .error (.raised (digitLimitError ℚ)) := by
  refine ⟨countAtLeast_parsed, ?_⟩
  have hrepr : (Expression.aggregate .sum (.literal (.int longInt : Value ℚ))).repr =
      .error (digitLimitError ℚ) := by
    rw [Expression.repr_eq, Expression.prints, Expression.prints, Value.prints, longInt_not_prints]
    rfl
  have hcolumn : outputColumnOf [.aggregate .sum (.literal (.int longInt))]
      (.countStar : Expression ℚ) = .error (.raised (digitLimitError ℚ)) := by
    have htarget : letThrough (Expression.countStar : Expression ℚ).repr = .ok "Count(*)" := rfl
    have hitem : (Expression.aggregate .sum (.literal (.int longInt : Value ℚ))).unalias =
        .aggregate .sum (.literal (.int longInt)) := rfl
    rw [outputColumnOf, htarget, ExceptList.bind_ok, matchingColumn, hitem, hrepr]
    rfl
  rw [substituteAggregates, substituteAggregates, hcolumn]
  rfl

end Examples

end MiniSpark
