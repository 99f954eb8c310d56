import MiniSpark.OptimizerSemantics

/-!
# What folding and simplification come to

An operation on constants is a constant, and so is a connective that one constant
decides. Folding finds the first kind, simplification the second, and each can make
room for the other in the next pass. Constants, the columns that are left and the
conditions under which every pass succeeds are read off the expression once; both
rules keep them.
-/
namespace MiniSpark

variable {F : Type} [PyRuntime F]

section Constants

/-- The truth of an `And`, as far as the known operands decide it. -/
def knownAnd : Option Bool → Option Bool → Option Bool
  | some false, _ => some false
  | _, some false => some false
  | some true, some true => some true
  | _, _ => none

/-- The truth of an `Or`, as far as the known operands decide it. -/
def knownOr : Option Bool → Option Bool → Option Bool
  | some true, _ => some true
  | _, some true => some true
  | some false, some false => some false
  | _, _ => none

/-- The literal that an expression comes to, if it comes to one. -/
def Expression.constant : Expression F → Option (Value F)
  | .literal v => some v
  | .binary .and l m =>
      (knownAnd (l.constant.map Value.truthy) (m.constant.map Value.truthy)).map Value.bool
  | .binary .or l m =>
      (knownOr (l.constant.map Value.truthy) (m.constant.map Value.truthy)).map Value.bool
  | .binary op l m => do
      let a ← l.constant
      let b ← m.constant
      (op.op a b).toOption
  | .not c => c.constant.map (fun v => .bool (!v.truthy))
  | .isNull c => c.constant.map (fun v => .bool v.isNone)
  | .isNotNull c => c.constant.map (fun v => .bool (!v.isNone))
  | _ => none

/-- The truth of the literal that an expression comes to. -/
def Expression.knownTruth (e : Expression F) : Option Bool := e.constant.map Value.truthy

/-- The expression comes to a literal of the given truth. -/
def ComesTo (truth : Bool) (e : Expression F) : Prop := e.knownTruth = some truth

/-- Every operation on constants has a value, and the value is fine. -/
def ConstantsEvaluate (P : Value F → Prop) : Expression F → Prop
  | .binary op l m => ConstantsEvaluate P l ∧ ConstantsEvaluate P m ∧
      ∀ a b, l.constant = some a → m.constant = some b → ∃ v, op.op a b = .ok v ∧ P v
  | .aliased c _ => ConstantsEvaluate P c
  | .not c => ConstantsEvaluate P c
  | .isNull c => ConstantsEvaluate P c
  | .isNotNull c => ConstantsEvaluate P c
  | _ => True

/-- The columns that are left when every constant is found. -/
def Expression.liveColumns : Expression F → List String
  | .column name => [name]
  | .literal _ => []
  | .aliased c _ => c.liveColumns
  | .binary op l m =>
      if (Expression.binary op l m).constant.isSome then []
      else if op ∈ [BinaryOp.and, .or] ∧ l.constant.isSome then m.liveColumns
      else if op ∈ [BinaryOp.and, .or] ∧ m.constant.isSome then l.liveColumns
      else l.liveColumns ++ m.liveColumns
  | .not c => if c.constant.isSome then [] else c.liveColumns
  | .isNull c => if c.constant.isSome then [] else c.liveColumns
  | .isNotNull c => if c.constant.isSome then [] else c.liveColumns
  | .countStar => []
  | .aggregate _ c => c.referencedColumns

lemma constant_binary_congr {l l' m m' : Expression F} (hl : l'.constant = l.constant)
    (hm : m'.constant = m.constant) (op : BinaryOp) :
    (Expression.binary op l' m').constant = (Expression.binary op l m).constant := by
  cases op <;> simp only [Expression.constant, hl, hm]

/-- An operation on two constants comes to its value. -/
lemma constant_binary {op : BinaryOp} {l m : Expression F} {a b v : Value F}
    (hl : l.constant = some a) (hm : m.constant = some b) (hv : op.op a b = .ok v) :
    (Expression.binary op l m).constant = some v := by
  cases op with
  | and =>
      cases hv
      cases ha : a.truthy <;> cases hb : b.truthy <;>
        simp [Expression.constant, hl, hm, ha, hb, knownAnd]
  | or =>
      cases hv
      cases ha : a.truthy <;> cases hb : b.truthy <;>
        simp [Expression.constant, hl, hm, ha, hb, knownOr]
  | _ => simp only [Expression.constant, hl, hm, Option.bind_eq_bind, Option.bind_some, hv]; rfl

theorem liveColumns_subset (e : Expression F) : e.liveColumns ⊆ e.referencedColumns := by
  induction e with
  | binary op l m ihl ihm =>
      rw [Expression.liveColumns, Expression.referencedColumns]
      split
      · exact List.nil_subset _
      · split
        · exact List.subset_append_of_subset_right _ ihm
        · split
          · exact List.subset_append_of_subset_left _ ihl
          · exact append_subset_append ihl ihm
  | aliased c n ih => exact ih
  | not c ih | isNull c ih | isNotNull c ih =>
      rw [Expression.liveColumns]
      split
      · exact List.nil_subset _
      · exact ih
  | _ => exact List.Subset.refl _

end Constants

section Folding

variable {e e' : Expression F}

/-- Folding keeps what an expression comes to. -/
theorem fold_constant (h : fold e = .ok e') : e'.constant = e.constant := by
  induction e generalizing e' with
  | binary op l m ihl ihm =>
      obtain ⟨l', m', hl, hm, hcase⟩ := fold_binary_ok h
      have hl' := ihl hl
      have hm' := ihm hm
      rcases hcase with ⟨a, b, v, rfl, rfl, hv, rfl⟩ | ⟨rfl, -⟩
      · exact (constant_binary hl'.symm hm'.symm hv).symm
      · exact constant_binary_congr hl' hm' op
  | aliased c n ih =>
      obtain ⟨c', -, h⟩ := ExceptList.bind_eq_ok.mp h
      cases h
      rfl
  | not c ih | isNull c ih | isNotNull c ih =>
      obtain ⟨c', hc, h⟩ := ExceptList.bind_eq_ok.mp h
      have hc' := ih hc
      split at h <;> cases h <;> simp only [Expression.constant, ← hc', Option.map_some]
  | _ => cases h; rfl

/-- What has no column comes to its value. -/
lemma constant_of_literalOnly {P : Value F → Prop} (h : ConstantsEvaluate P e)
    (hl : LiteralOnly e) : ∃ v, e.constant = some v ∧ ∀ r, e.evaluate r = .ok v := by
  induction e with
  | literal v => exact ⟨v, rfl, fun _ => rfl⟩
  | binary op l m ihl ihm =>
      obtain ⟨a, hla, hlr⟩ := ihl h.1 hl.1
      obtain ⟨b, hmb, hmr⟩ := ihm h.2.1 hl.2
      obtain ⟨v, hv, -⟩ := h.2.2 a b hla hmb
      exact ⟨v, constant_binary hla hmb hv,
        fun r => Expression.evaluate_binary_ok.mpr ⟨a, b, hlr r, hmr r, hv⟩⟩
  | not c ih =>
      obtain ⟨a, hca, hcr⟩ := ih h hl
      exact ⟨_, by rw [Expression.constant, hca]; rfl,
        fun r => Expression.evaluate_not_ok.mpr ⟨a, hcr r, rfl⟩⟩
  | isNull c ih =>
      obtain ⟨a, hca, hcr⟩ := ih h hl
      exact ⟨_, by rw [Expression.constant, hca]; rfl,
        fun r => Expression.evaluate_isNull_ok.mpr ⟨a, hcr r, rfl⟩⟩
  | isNotNull c ih =>
      obtain ⟨a, hca, hcr⟩ := ih h hl
      exact ⟨_, by rw [Expression.constant, hca]; rfl,
        fun r => Expression.evaluate_isNotNull_ok.mpr ⟨a, hcr r, rfl⟩⟩
  | _ => exact hl.elim

theorem ConstantsEvaluate.foldSafe {P : Value F → Prop} (h : ConstantsEvaluate P e) :
    FoldSafe e := by
  induction e with
  | binary op l m ihl ihm =>
      refine ⟨ihl h.1, ihm h.2.1, fun hlit => ?_⟩
      obtain ⟨a, hla, hlr⟩ := constant_of_literalOnly h.1 hlit.1
      obtain ⟨b, hmb, hmr⟩ := constant_of_literalOnly h.2.1 hlit.2
      obtain ⟨v, hv, -⟩ := h.2.2 a b hla hmb
      exact ⟨v, Expression.evaluate_binary_ok.mpr ⟨a, b, hlr _, hmr _, hv⟩⟩
  | aliased c n ih | not c ih | isNull c ih | isNotNull c ih => exact ih h
  | _ => trivial

theorem ConstantsEvaluate.fold {P : Value F → Prop} (h : ConstantsEvaluate P e)
    (hf : fold e = .ok e') : ConstantsEvaluate P e' := by
  induction e generalizing e' with
  | binary op l m ihl ihm =>
      obtain ⟨l', m', hl, hm, hcase⟩ := fold_binary_ok hf
      have hl' := ihl h.1 hl
      have hm' := ihm h.2.1 hm
      rcases hcase with ⟨a, b, v, rfl, rfl, -, rfl⟩ | ⟨rfl, -⟩
      · trivial
      · refine ⟨hl', hm', fun a b ha hb => h.2.2 a b ?_ ?_⟩
        · rwa [← fold_constant hl]
        · rwa [← fold_constant hm]
  | aliased c n ih =>
      obtain ⟨c', hc, hf⟩ := ExceptList.bind_eq_ok.mp hf
      have hc' := ih h hc
      cases hf
      exact hc'
  | not c ih | isNull c ih | isNotNull c ih =>
      obtain ⟨c', hc, hf⟩ := ExceptList.bind_eq_ok.mp hf
      have hc' := ih h hc
      split at hf <;> cases hf
      · trivial
      · exact hc'
  | _ => cases hf; trivial

/-- Folding leaves text that prints where the values it finds print. -/
theorem fold_prints (h : ConstantsEvaluate (fun v => v.prints = true) e) (hp : e.prints = true)
    (hf : fold e = .ok e') : e'.prints = true := by
  induction e generalizing e' with
  | binary op l m ihl ihm =>
      obtain ⟨l', m', hl, hm, hcase⟩ := fold_binary_ok hf
      rw [Expression.prints, Bool.and_eq_true] at hp
      have hl' := ihl h.1 hp.1 hl
      have hm' := ihm h.2.1 hp.2 hm
      rcases hcase with ⟨a, b, v, rfl, rfl, hv, rfl⟩ | ⟨rfl, -⟩
      · obtain ⟨v', hv', hprints⟩ :=
            h.2.2 _ _ (fold_constant hl).symm (fold_constant hm).symm
        rw [hv, Except.ok.injEq] at hv'
        exact hv' ▸ hprints
      · rw [Expression.prints, hl', hm', Bool.and_self]
  | aliased c n ih =>
      obtain ⟨c', hc, hf⟩ := ExceptList.bind_eq_ok.mp hf
      have hc' := ih h hp hc
      cases hf
      exact hc'
  | not c ih | isNull c ih | isNotNull c ih =>
      obtain ⟨c', hc, hf⟩ := ExceptList.bind_eq_ok.mp hf
      have hc' := ih h hp hc
      split at hf <;> cases hf
      · rfl
      · exact hc'
  | _ => cases hf; exact hp

/-- Folding keeps the columns that are left. -/
theorem fold_liveColumns (h : fold e = .ok e') : e'.liveColumns = e.liveColumns := by
  induction e generalizing e' with
  | binary op l m ihl ihm =>
      have hc := fold_constant h
      obtain ⟨l', m', hl, hm, hcase⟩ := fold_binary_ok h
      have hl' := ihl hl
      have hm' := ihm hm
      rcases hcase with ⟨a, b, v, rfl, rfl, hv, rfl⟩ | ⟨rfl, -⟩
      · rw [Expression.liveColumns, Expression.liveColumns, ← hc]
        rfl
      · rw [Expression.liveColumns, Expression.liveColumns, hc, fold_constant hl, fold_constant hm,
          hl', hm']
  | aliased c n ih =>
      obtain ⟨c', hc, h⟩ := ExceptList.bind_eq_ok.mp h
      have hc' := ih hc
      cases h
      exact hc'
  | not c ih | isNull c ih | isNotNull c ih =>
      obtain ⟨c', hc, h⟩ := ExceptList.bind_eq_ok.mp h
      have hc' := ih hc
      have hconst := fold_constant hc
      split at h <;> cases h
      · rw [Expression.liveColumns, Expression.liveColumns, ← hconst]
        rfl
      · rw [Expression.liveColumns, Expression.liveColumns, hconst, hc']
  | _ => cases h; rfl

end Folding

section Values

omit [PyRuntime F] in
/-- Every operand of the connectives has bool values. -/
def AllBool : Expression F → Prop
  | .literal v => ∃ b, v = .bool b
  | .aliased c _ => AllBool c
  | .binary .and l m => AllBool l ∧ AllBool m
  | .binary .or l m => AllBool l ∧ AllBool m
  | .binary op _ _ => op ∈ [BinaryOp.greaterThan, .greaterEqual, .lessThan, .lessEqual, .equal,
      .notEqual]
  | .not c => AllBool c
  | .isNull _ => True
  | .isNotNull _ => True
  | _ => False

/-- The expression is a negation or can come to one. -/
def MayNegate : Expression F → Prop
  | .not _ => True
  | .binary .and l m => ComesTo true l ∧ MayNegate m ∨ ComesTo true m ∧ MayNegate l
  | .binary .or l m => ComesTo false l ∧ MayNegate m ∨ ComesTo false m ∧ MayNegate l
  | _ => False

/-- What is left of the expression has bool values: of a connective that a constant operand does
not decide the other operand is left, of a double negation what it negates. -/
def LeavesBool : Expression F → Prop
  | .literal v => ∃ b, v = .bool b
  | .aliased c _ => LeavesBool c
  | .binary .and l m => (ComesTo true l → LeavesBool m) ∧ (ComesTo true m → LeavesBool l)
  | .binary .or l m => (ComesTo false l → LeavesBool m) ∧ (ComesTo false m → LeavesBool l)
  | .binary op _ _ => op ∈ [BinaryOp.greaterThan, .greaterEqual, .lessThan, .lessEqual, .equal,
      .notEqual]
  | .not c => MayNegate c → AllBool c
  | .isNull _ => True
  | .isNotNull _ => True
  | _ => False

/-- Where the value itself is read (`exact`), not only its truth, a connective leaves bool
values. -/
def ValueKept : Expression F → (exact : Bool) → Prop
  | .binary .and l m, exact => ValueKept l false ∧ ValueKept m false ∧
      (exact = true → LeavesBool (.binary .and l m))
  | .binary .or l m, exact => ValueKept l false ∧ ValueKept m false ∧
      (exact = true → LeavesBool (.binary .or l m))
  | .binary _ l m, _ => ValueKept l true ∧ ValueKept m true
  | .not c, exact => ValueKept c false ∧ (exact = true → LeavesBool (.not c))
  | .aliased c _, exact => ValueKept c exact
  | _, _ => True

lemma AllBool.leavesBool {e : Expression F} (h : AllBool e) : LeavesBool e := by
  induction e with
  | binary op l m ihl ihm =>
      cases op with
      | and | or => exact ⟨fun _ => ihm h.2, fun _ => ihl h.1⟩
      | _ => exact h
  | aliased c n ih => exact ih h
  | not c _ => exact fun _ => h
  | _ => exact h

lemma LeavesBool.boolValued {e : Expression F} (h : LeavesBool e) : BoolValued e := by
  induction e with
  | binary op l m _ _ =>
      cases op with
      | and | or => simp [BoolValued]
      | _ =>
          revert h
          simp [LeavesBool, BoolValued]
  | aliased c n ih => exact ih h
  | not c _ => trivial
  | _ => exact h

/-- A comparison has bool values. -/
lemma comparison_bool {op : BinaryOp} {a b v : Value F}
    (h : op ∈ [BinaryOp.greaterThan, .greaterEqual, .lessThan, .lessEqual, .equal, .notEqual])
    (hv : op.op a b = .ok v) : ∃ c, v = .bool c := by
  cases op with
  | greaterThan | greaterEqual | lessThan | lessEqual =>
      obtain ⟨c, -, rfl⟩ := ExceptList.map_eq_ok.mp hv
      exact ⟨c, rfl⟩
  | equal | notEqual =>
      cases hv
      exact ⟨_, rfl⟩
  | _ => simp at h

/-- Where bool values are left, what the expression comes to is a bool. -/
lemma LeavesBool.constant_bool {e : Expression F} (h : LeavesBool e) {v : Value F}
    (hv : e.constant = some v) : ∃ b, v = .bool b := by
  cases e with
  | literal w =>
      cases hv
      exact h
  | binary op l m =>
      cases op with
      | and | or =>
          obtain ⟨b, -, rfl⟩ := Option.map_eq_some_iff.mp hv
          exact ⟨b, rfl⟩
      | _ =>
          obtain ⟨a, -, hv⟩ := Option.bind_eq_some_iff.mp hv
          obtain ⟨b, -, hv⟩ := Option.bind_eq_some_iff.mp hv
          exact comparison_bool h (ExceptList.toOption_eq_some.mp hv)
  | not c | isNull c | isNotNull c =>
      obtain ⟨a, -, rfl⟩ := Option.map_eq_some_iff.mp hv
      exact ⟨_, rfl⟩
  | _ => cases hv

/-- Where bool values are left, what is read as a truth is kept as a value. -/
lemma ValueKept.of_leavesBool {e : Expression F} (h : ValueKept e false) (hb : LeavesBool e) :
    ValueKept e true := by
  induction e with
  | binary op l m _ _ =>
      cases op with
      | and | or => exact ⟨h.1, h.2.1, fun _ => hb⟩
      | _ => exact h
  | aliased c n ih => exact ih h hb
  | not c _ => exact ⟨h.1, fun _ => hb⟩
  | _ => trivial

lemma ValueKept.truth {e : Expression F} {exact : Bool} (h : ValueKept e exact) :
    ValueKept e false := by
  induction e with
  | binary op l m _ _ =>
      cases op with
      | and | or => exact ⟨h.1, h.2.1, fun hx => by cases hx⟩
      | _ => exact h
  | aliased c n ih => exact ih h
  | not c _ => exact ⟨h.1, fun hx => by cases hx⟩
  | _ => trivial

end Values

section ValuesFolded

variable {e e' : Expression F}

lemma AllBool.op_bool {op : BinaryOp} {l m : Expression F} (h : AllBool (.binary op l m))
    {a b v : Value F} (hv : op.op a b = .ok v) : ∃ c, v = .bool c := by
  cases op with
  | and | or =>
      cases hv
      exact ⟨_, rfl⟩
  | _ => exact comparison_bool h hv

lemma AllBool.fold (h : AllBool e) (hf : fold e = .ok e') : AllBool e' := by
  induction e generalizing e' with
  | binary op l m ihl ihm =>
      obtain ⟨l', m', hl, hm, hcase⟩ := fold_binary_ok hf
      rcases hcase with ⟨a, b, v, rfl, rfl, hv, rfl⟩ | ⟨rfl, -⟩
      · exact h.op_bool hv
      · cases op with
        | and | or => exact ⟨ihl h.1 hl, ihm h.2 hm⟩
        | _ => exact h
  | aliased c n ih =>
      obtain ⟨c', hc, hf⟩ := ExceptList.bind_eq_ok.mp hf
      have hc' := ih h hc
      cases hf
      exact hc'
  | not c ih =>
      obtain ⟨c', hc, hf⟩ := ExceptList.bind_eq_ok.mp hf
      have hc' := ih h hc
      split at hf <;> cases hf
      · exact ⟨_, rfl⟩
      · exact hc'
  | isNull c _ | isNotNull c _ =>
      obtain ⟨c', -, hf⟩ := ExceptList.bind_eq_ok.mp hf
      split at hf <;> cases hf
      · exact ⟨_, rfl⟩
      · trivial
  | _ => cases hf; exact h

lemma comesTo_fold (hf : fold e = .ok e') {b : Bool} : ComesTo b e' ↔ ComesTo b e := by
  rw [ComesTo, ComesTo, Expression.knownTruth, Expression.knownTruth, fold_constant hf]

lemma MayNegate.of_fold (h : MayNegate e') (hf : fold e = .ok e') : MayNegate e := by
  induction e generalizing e' with
  | binary op l m ihl ihm =>
      obtain ⟨l', m', hl, hm, hcase⟩ := fold_binary_ok hf
      rcases hcase with ⟨a, b, v, rfl, rfl, -, rfl⟩ | ⟨rfl, -⟩
      · exact h.elim
      · cases op with
        | and | or =>
            exact h.imp (fun h => ⟨(comesTo_fold hl).mp h.1, ihm h.2 hm⟩)
              (fun h => ⟨(comesTo_fold hm).mp h.1, ihl h.2 hl⟩)
        | _ => exact h.elim
  | not c _ => trivial
  | aliased c n _ =>
      obtain ⟨c', -, hf⟩ := ExceptList.bind_eq_ok.mp hf
      cases hf
      exact h.elim
  | isNull c _ | isNotNull c _ =>
      obtain ⟨c', -, hf⟩ := ExceptList.bind_eq_ok.mp hf
      split at hf <;> cases hf <;> exact h.elim
  | _ => cases hf; exact h.elim

lemma LeavesBool.fold (h : LeavesBool e) (hf : fold e = .ok e') : LeavesBool e' := by
  induction e generalizing e' with
  | binary op l m ihl ihm =>
      obtain ⟨l', m', hl, hm, hcase⟩ := fold_binary_ok hf
      rcases hcase with ⟨a, b, v, rfl, rfl, hv, rfl⟩ | ⟨rfl, -⟩
      · cases op with
        | and | or =>
            cases hv
            exact ⟨_, rfl⟩
        | _ => exact comparison_bool h hv
      · cases op with
        | and | or => exact ⟨fun ht => ihm (h.1 ((comesTo_fold hl).mp ht)) hm,
            fun ht => ihl (h.2 ((comesTo_fold hm).mp ht)) hl⟩
        | _ => exact h
  | aliased c n ih =>
      obtain ⟨c', hc, hf⟩ := ExceptList.bind_eq_ok.mp hf
      have hc' := ih h hc
      cases hf
      exact hc'
  | not c _ =>
      obtain ⟨c', hc, hf⟩ := ExceptList.bind_eq_ok.mp hf
      split at hf <;> cases hf
      · exact ⟨_, rfl⟩
      · exact fun hneg => (h (hneg.of_fold hc)).fold hc
  | isNull c _ | isNotNull c _ =>
      obtain ⟨c', -, hf⟩ := ExceptList.bind_eq_ok.mp hf
      split at hf <;> cases hf
      · exact ⟨_, rfl⟩
      · trivial
  | _ => cases hf; exact h

lemma ValueKept.fold {exact : Bool} (h : ValueKept e exact) (hf : fold e = .ok e') :
    ValueKept e' exact := by
  induction e generalizing e' exact with
  | binary op l m ihl ihm =>
      have hwhole := hf
      obtain ⟨l', m', hl, hm, hcase⟩ := fold_binary_ok hf
      rcases hcase with ⟨a, b, v, rfl, rfl, -, rfl⟩ | ⟨rfl, -⟩
      · trivial
      · cases op with
        | and | or => exact ⟨ihl h.1 hl, ihm h.2.1 hm, fun hx => (h.2.2 hx).fold hwhole⟩
        | _ => exact ⟨ihl h.1 hl, ihm h.2 hm⟩
  | aliased c n ih =>
      obtain ⟨c', hc, hf⟩ := ExceptList.bind_eq_ok.mp hf
      have hc' := ih h hc
      cases hf
      exact hc'
  | not c ih =>
      have hwhole := hf
      obtain ⟨c', hc, hf⟩ := ExceptList.bind_eq_ok.mp hf
      have hc' := ih h.1 hc
      split at hf <;> cases hf
      · trivial
      · exact ⟨hc', fun hx => (h.2 hx).fold hwhole⟩
  | isNull c _ | isNotNull c _ =>
      obtain ⟨c', -, hf⟩ := ExceptList.bind_eq_ok.mp hf
      split at hf <;> cases hf <;> trivial
  | _ => cases hf; trivial

end ValuesFolded

section Simplification

/-- What simplification keeps of an expression. -/
structure SimplifiedTo (e e' : Expression F) : Prop where
  truth : e'.knownTruth = e.knownTruth
  live : e.liveColumns ⊆ e'.liveColumns
  allBool : AllBool e → AllBool e'
  negates : MayNegate e' → MayNegate e
  leaves : LeavesBool e → LeavesBool e'

lemma knownTruth_and (l m : Expression F) :
    (Expression.binary .and l m).knownTruth = knownAnd l.knownTruth m.knownTruth := by
  rw [Expression.knownTruth, Expression.constant, Option.map_map]
  exact congrFun Option.map_id _

lemma knownTruth_or (l m : Expression F) :
    (Expression.binary .or l m).knownTruth = knownOr l.knownTruth m.knownTruth := by
  rw [Expression.knownTruth, Expression.constant, Option.map_map]
  exact congrFun Option.map_id _

lemma knownTruth_not (c : Expression F) : (Expression.not c).knownTruth = c.knownTruth.map not := by
  rw [Expression.knownTruth, Expression.constant, Option.map_map, Expression.knownTruth,
    Option.map_map]
  rfl

lemma isSome_constant (e : Expression F) : e.constant.isSome = e.knownTruth.isSome :=
  Option.isSome_map.symm

namespace SimplifiedTo

variable {e e' l l' m m' c c' : Expression F}

lemma refl (e : Expression F) : SimplifiedTo e e := ⟨rfl, List.Subset.refl _, id, id, id⟩

lemma comesTo (h : SimplifiedTo e e') {b : Bool} : ComesTo b e' ↔ ComesTo b e := by
  rw [ComesTo, ComesTo, h.truth]

lemma isSome (h : SimplifiedTo e e') : e'.constant.isSome = e.constant.isSome := by
  rw [isSome_constant, isSome_constant, h.truth]

/-- Where bool values are left, a kept truth is a kept constant. -/
lemma constant_eq (h : SimplifiedTo e e') (hb : LeavesBool e) : e'.constant = e.constant := by
  have htruth := h.truth
  rw [Expression.knownTruth, Expression.knownTruth] at htruth
  cases hc : e.constant with
  | none => rwa [hc, Option.map_none, Option.map_eq_none_iff] at htruth
  | some v =>
      rw [hc, Option.map_some, Option.map_eq_some_iff] at htruth
      obtain ⟨w, hw, heq⟩ := htruth
      obtain ⟨a, rfl⟩ := hb.constant_bool hc
      obtain ⟨b, rfl⟩ := (h.leaves hb).constant_bool hw
      rw [hw, show b = a from heq]

/-- The operand that a connective drops: true of an `And`, false of an `Or`. -/
def Neutral (op : BinaryOp) (truth : Bool) : Prop :=
  op = .and ∧ truth = true ∨ op = .or ∧ truth = false

lemma Neutral.truth_right {op : BinaryOp} {b : Bool} (hop : Neutral op b) (hl : ComesTo b l) :
    (Expression.binary op l m).knownTruth = m.knownTruth := by
  rcases hop with ⟨rfl, rfl⟩ | ⟨rfl, rfl⟩
  · rw [knownTruth_and, show l.knownTruth = some true from hl]
    rcases m.knownTruth with _ | _ | _ <;> rfl
  · rw [knownTruth_or, show l.knownTruth = some false from hl]
    rcases m.knownTruth with _ | _ | _ <;> rfl

lemma Neutral.truth_left {op : BinaryOp} {b : Bool} (hop : Neutral op b) (hm : ComesTo b m) :
    (Expression.binary op l m).knownTruth = l.knownTruth := by
  rcases hop with ⟨rfl, rfl⟩ | ⟨rfl, rfl⟩
  · rw [knownTruth_and, show m.knownTruth = some true from hm]
    rcases l.knownTruth with _ | _ | _ <;> rfl
  · rw [knownTruth_or, show m.knownTruth = some false from hm]
    rcases l.knownTruth with _ | _ | _ <;> rfl

lemma liveColumns_of_left {op : BinaryOp} {b : Bool} (hop : Neutral op b) (hl : ComesTo b l) :
    (Expression.binary op l m).liveColumns ⊆ m.liveColumns := by
  have hmem : op ∈ [BinaryOp.and, .or] := by rcases hop with ⟨rfl, -⟩ | ⟨rfl, -⟩ <;> simp
  have hconst : l.constant.isSome = true := by rw [isSome_constant, hl]; rfl
  rw [Expression.liveColumns, if_pos (show _ ∧ _ from ⟨hmem, hconst⟩)]
  split
  · exact List.nil_subset _
  · exact List.Subset.refl _

lemma liveColumns_of_right {op : BinaryOp} {b : Bool} (hop : Neutral op b) (hm : ComesTo b m) :
    (Expression.binary op l m).liveColumns ⊆ l.liveColumns := by
  have hmem : op ∈ [BinaryOp.and, .or] := by rcases hop with ⟨rfl, -⟩ | ⟨rfl, -⟩ <;> simp
  have hconst : m.constant.isSome = true := by rw [isSome_constant, hm]; rfl
  rw [Expression.liveColumns, if_pos (show op ∈ _ ∧ m.constant.isSome from ⟨hmem, hconst⟩)]
  split
  · exact List.nil_subset _
  · split
    · next hboth =>
        -- both operands are constants, and one of them is neutral
        rename_i hnot
        rw [isSome_constant, hop.truth_left hm, ← isSome_constant] at hnot
        exact absurd hboth.2 hnot
    · exact List.Subset.refl _

/-- Of a connective with one neutral operand the other operand is left. -/
lemma keep_right {op : BinaryOp} {b : Bool} (hop : Neutral op b) (hm : SimplifiedTo m m')
    (hl : ComesTo b l) : SimplifiedTo (.binary op l m) m' where
  truth := by rw [hm.truth, hop.truth_right hl]
  live := List.Subset.trans (liveColumns_of_left hop hl) hm.live
  allBool h := by rcases hop with ⟨rfl, rfl⟩ | ⟨rfl, rfl⟩ <;> exact hm.allBool h.2
  negates h := by
    rcases hop with ⟨rfl, rfl⟩ | ⟨rfl, rfl⟩ <;> exact Or.inl ⟨hl, hm.negates h⟩
  leaves h := by rcases hop with ⟨rfl, rfl⟩ | ⟨rfl, rfl⟩ <;> exact hm.leaves (h.1 hl)

lemma keep_left {op : BinaryOp} {b : Bool} (hop : Neutral op b) (hl : SimplifiedTo l l')
    (hm : ComesTo b m) : SimplifiedTo (.binary op l m) l' where
  truth := by rw [hl.truth, hop.truth_left hm]
  live := List.Subset.trans (liveColumns_of_right hop hm) hl.live
  allBool h := by rcases hop with ⟨rfl, rfl⟩ | ⟨rfl, rfl⟩ <;> exact hl.allBool h.1
  negates h := by
    rcases hop with ⟨rfl, rfl⟩ | ⟨rfl, rfl⟩ <;> exact Or.inr ⟨hm, hl.negates h⟩
  leaves h := by rcases hop with ⟨rfl, rfl⟩ | ⟨rfl, rfl⟩ <;> exact hl.leaves (h.2 hm)

/-- An expression whose truth is known can be replaced by that truth. -/
lemma decided {b : Bool} (h : e.knownTruth = some b) (hlive : e.liveColumns = []) :
    SimplifiedTo e (.literal (.bool b)) where
  truth := h.symm
  live := by rw [hlive]; exact List.nil_subset _
  allBool _ := ⟨b, rfl⟩
  negates h := h.elim
  leaves _ := ⟨b, rfl⟩

lemma liveColumns_of_decided {op : BinaryOp} {b : Bool}
    (h : (Expression.binary op l m).knownTruth = some b) :
    (Expression.binary op l m).liveColumns = [] := by
  rw [Expression.liveColumns, if_pos (by rw [isSome_constant, h]; rfl)]

/-- A connective of what its operands simplify to. -/
lemma connective {op : BinaryOp} {b : Bool} (hop : Neutral op b) (hl : SimplifiedTo l l')
    (hm : SimplifiedTo m m') : SimplifiedTo (.binary op l m) (.binary op l' m') := by
  have htruth :
      (Expression.binary op l' m').knownTruth = (Expression.binary op l m).knownTruth := by
    rcases hop with ⟨rfl, -⟩ | ⟨rfl, -⟩
    · rw [knownTruth_and, knownTruth_and, hl.truth, hm.truth]
    · rw [knownTruth_or, knownTruth_or, hl.truth, hm.truth]
  refine ⟨htruth, ?_, fun h => ?_, fun h => ?_, fun h => ?_⟩
  · have hsome : (Expression.binary op l' m').constant.isSome =
        (Expression.binary op l m).constant.isSome := by
      rw [isSome_constant, isSome_constant, htruth]
    rw [Expression.liveColumns, Expression.liveColumns, hsome, hl.isSome, hm.isSome]
    split
    · exact List.nil_subset _
    · split
      · exact hm.live
      · split
        · exact hl.live
        · exact append_subset_append hl.live hm.live
  · rcases hop with ⟨rfl, -⟩ | ⟨rfl, -⟩ <;> exact ⟨hl.allBool h.1, hm.allBool h.2⟩
  · rcases hop with ⟨rfl, -⟩ | ⟨rfl, -⟩ <;>
      exact h.imp (fun h => ⟨hl.comesTo.mp h.1, hm.negates h.2⟩)
        (fun h => ⟨hm.comesTo.mp h.1, hl.negates h.2⟩)
  · rcases hop with ⟨rfl, -⟩ | ⟨rfl, -⟩ <;>
      exact ⟨fun ht => hm.leaves (h.1 (hl.comesTo.mp ht)),
        fun ht => hl.leaves (h.2 (hm.comesTo.mp ht))⟩

lemma simplifyAnd (hl : SimplifiedTo l l') (hm : SimplifiedTo m m') :
    SimplifiedTo (.binary .and l m) (MiniSpark.simplifyAnd l' m') := by
  have hand : Neutral .and true := Or.inl ⟨rfl, rfl⟩
  unfold MiniSpark.simplifyAnd
  split
  · next _ v =>
      have hv : l.knownTruth = some v.truthy := hl.truth.symm
      split
      · next ht => exact keep_right hand hm (hv.trans (congrArg some ht))
      · next ht =>
          have hfalse : (Expression.binary .and l m).knownTruth = some false := by
            rw [knownTruth_and, hv, Bool.eq_false_of_not_eq_true ht]
            rfl
          exact decided hfalse (liveColumns_of_decided hfalse)
  · next _ v _ =>
      have hv : m.knownTruth = some v.truthy := hm.truth.symm
      split
      · next ht => exact keep_left hand hl (hv.trans (congrArg some ht))
      · next ht =>
          have hfalse : (Expression.binary .and l m).knownTruth = some false := by
            rw [knownTruth_and, hv, Bool.eq_false_of_not_eq_true ht]
            rcases l.knownTruth with _ | _ | _ <;> rfl
          exact decided hfalse (liveColumns_of_decided hfalse)
  · exact connective hand hl hm

lemma simplifyOr (hl : SimplifiedTo l l') (hm : SimplifiedTo m m') :
    SimplifiedTo (.binary .or l m) (MiniSpark.simplifyOr l' m') := by
  have hor : Neutral .or false := Or.inr ⟨rfl, rfl⟩
  unfold MiniSpark.simplifyOr
  split
  · next _ v =>
      have hv : l.knownTruth = some v.truthy := hl.truth.symm
      split
      · next ht =>
          have htrue : (Expression.binary .or l m).knownTruth = some true := by
            rw [knownTruth_or, hv, ht]
            rfl
          exact decided htrue (liveColumns_of_decided htrue)
      · next ht =>
          exact keep_right hor hm (hv.trans (congrArg some (Bool.eq_false_of_not_eq_true ht)))
  · next _ v _ =>
      have hv : m.knownTruth = some v.truthy := hm.truth.symm
      split
      · next ht =>
          have htrue : (Expression.binary .or l m).knownTruth = some true := by
            rw [knownTruth_or, hv, ht]
            rcases l.knownTruth with _ | _ | _ <;> rfl
          exact decided htrue (liveColumns_of_decided htrue)
      · next ht =>
          exact keep_left hor hl (hv.trans (congrArg some (Bool.eq_false_of_not_eq_true ht)))
  · exact connective hor hl hm

lemma liveColumns_not (c : Expression F) : (Expression.not c).liveColumns ⊆ c.liveColumns := by
  rw [Expression.liveColumns]
  split
  · exact List.nil_subset _
  · exact List.Subset.refl _

lemma simplifyNot (hc : SimplifiedTo c c') :
    SimplifiedTo (.not c) (MiniSpark.simplifyNot c') := by
  have htruth : (Expression.not c').knownTruth = (Expression.not c).knownTruth := by
    rw [knownTruth_not, knownTruth_not, hc.truth]
  unfold MiniSpark.simplifyNot
  split
  · next d =>
      refine ⟨?_, ?_, fun h => hc.allBool h, fun _ => trivial,
        fun h => AllBool.leavesBool (hc.allBool (h (hc.negates trivial)))⟩
      · rw [← htruth, knownTruth_not, knownTruth_not, Option.map_map]
        rcases d.knownTruth with _ | _ | _ <;> rfl
      · exact List.Subset.trans (liveColumns_not c)
          (List.Subset.trans hc.live (liveColumns_not d))
  · refine ⟨htruth, ?_, fun h => hc.allBool h, fun _ => trivial,
      fun h hneg => hc.allBool (h (hc.negates hneg))⟩
    rw [Expression.liveColumns, Expression.liveColumns, hc.isSome]
    split
    · exact List.nil_subset _
    · exact hc.live

end SimplifiedTo

/-- Simplification keeps what an expression comes to and leaves, and the constant itself where
the value is read. -/
theorem simplifyBool_simplifiedTo {e : Expression F} {exact : Bool} (h : ValueKept e exact) :
    SimplifiedTo e (simplifyBool e) ∧
      (exact = true → (simplifyBool e).constant = e.constant) := by
  induction e generalizing exact with
  | binary op l m ihl ihm =>
      cases op with
      | and =>
          have hs := (ihl h.1).1.simplifyAnd (ihm h.2.1).1
          exact ⟨hs, fun hx => hs.constant_eq (h.2.2 hx)⟩
      | or =>
          have hs := (ihl h.1).1.simplifyOr (ihm h.2.1).1
          exact ⟨hs, fun hx => hs.constant_eq (h.2.2 hx)⟩
      | _ =>
          obtain ⟨hl, hlc⟩ := ihl h.1
          obtain ⟨hm, hmc⟩ := ihm h.2
          have hconst := constant_binary_congr (hlc rfl) (hmc rfl)
          refine ⟨⟨congrArg (Option.map Value.truthy) (hconst _), ?_, id, fun h => h.elim, id⟩,
            fun _ => hconst _⟩
          change _ ⊆ (Expression.binary _ (simplifyBool l) (simplifyBool m)).liveColumns
          rw [Expression.liveColumns, Expression.liveColumns, hconst]
          split
          · exact List.nil_subset _
          · simp only [List.mem_cons, reduceCtorEq, List.not_mem_nil, or_false, false_and, if_false]
            exact append_subset_append hl.live hm.live
  | not c ih =>
      have hs := (ih h.1).1.simplifyNot
      exact ⟨hs, fun hx => hs.constant_eq (h.2 hx)⟩
  | aliased c n ih =>
      obtain ⟨hs, -⟩ := ih h
      exact ⟨⟨rfl, hs.live, hs.allBool, fun h => h.elim, hs.leaves⟩, fun _ => rfl⟩
  | _ => exact ⟨.refl _, fun _ => rfl⟩

section Kept

variable {l m c e : Expression F}

lemma simplifyAnd_cases (Q : Expression F → Prop) (hbool : Q (.literal (.bool false))) (hl : Q l)
    (hm : Q m) (hand : Q (.binary .and l m)) : Q (simplifyAnd l m) := by
  unfold simplifyAnd
  split
  · split
    · exact hm
    · exact hbool
  · split
    · exact hl
    · exact hbool
  · exact hand

lemma simplifyOr_cases (Q : Expression F → Prop) (hbool : Q (.literal (.bool true))) (hl : Q l)
    (hm : Q m) (hor : Q (.binary .or l m)) : Q (simplifyOr l m) := by
  unfold simplifyOr
  split
  · split
    · exact hbool
    · exact hm
  · split
    · exact hbool
    · exact hl
  · exact hor

omit [PyRuntime F] in
lemma simplifyNot_cases (Q : Expression F → Prop) (hnot : Q (.not c))
    (hnegated : ∀ d, c = .not d → Q d) : Q (simplifyNot c) := by
  unfold simplifyNot
  split
  · exact hnegated _ rfl
  · exact hnot

theorem ValueKept.simplify {exact : Bool} (h : ValueKept e exact) :
    ValueKept (simplifyBool e) exact := by
  induction e generalizing exact with
  | binary op l m ihl ihm =>
      cases op with
      | and =>
          have htruth : ValueKept (simplifyBool (.binary .and l m)) false := simplifyAnd_cases
            (ValueKept · false) trivial (ihl h.1) (ihm h.2.1)
            ⟨ihl h.1, ihm h.2.1, fun hx => by cases hx⟩
          cases exact with
          | false => exact htruth
          | true => exact htruth.of_leavesBool ((simplifyBool_simplifiedTo h).1.leaves (h.2.2 rfl))
      | or =>
          have htruth : ValueKept (simplifyBool (.binary .or l m)) false := simplifyOr_cases
            (ValueKept · false) trivial (ihl h.1) (ihm h.2.1)
            ⟨ihl h.1, ihm h.2.1, fun hx => by cases hx⟩
          cases exact with
          | false => exact htruth
          | true => exact htruth.of_leavesBool ((simplifyBool_simplifiedTo h).1.leaves (h.2.2 rfl))
      | _ => exact ⟨ihl h.1, ihm h.2⟩
  | not c ih =>
      have hc := ih h.1
      have htruth : ValueKept (simplifyBool (.not c)) false :=
        simplifyNot_cases (ValueKept · false) ⟨hc, fun hx => by cases hx⟩
          (fun d hd => by rw [hd] at hc; exact hc.1)
      cases exact with
      | false => exact htruth
      | true => exact htruth.of_leavesBool ((simplifyBool_simplifiedTo h).1.leaves (h.2 rfl))
  | aliased c n ih => exact ih h
  | _ => trivial

theorem ValueKept.simplifySafe {exact : Bool} (h : ValueKept e exact) : SimplifySafe e exact := by
  induction e generalizing exact with
  | binary op l m ihl ihm =>
      cases op with
      | and | or =>
          exact ⟨ihl h.1, ihm h.2.1, fun hx =>
            ((simplifyBool_simplifiedTo h).1.leaves (h.2.2 hx)).boolValued⟩
      | _ => exact ⟨ihl h.1, ihm h.2⟩
  | not c ih =>
      exact ⟨ih h.1, fun hx => ((simplifyBool_simplifiedTo h).1.leaves (h.2 hx)).boolValued⟩
  | aliased c n ih => exact ih h
  | _ => trivial

theorem ConstantsEvaluate.simplify {P : Value F → Prop} (hP : ∀ b, P (.bool b)) {exact : Bool}
    (h : ConstantsEvaluate P e) (hk : ValueKept e exact) :
    ConstantsEvaluate P (simplifyBool e) := by
  induction e generalizing exact with
  | binary op l m ihl ihm =>
      cases op with
      | and =>
          have hl := ihl h.1 hk.1
          have hm := ihm h.2.1 hk.2.1
          exact simplifyAnd_cases (ConstantsEvaluate P) trivial hl hm
            ⟨hl, hm, fun a b _ _ => ⟨_, rfl, hP _⟩⟩
      | or =>
          have hl := ihl h.1 hk.1
          have hm := ihm h.2.1 hk.2.1
          exact simplifyOr_cases (ConstantsEvaluate P) trivial hl hm
            ⟨hl, hm, fun a b _ _ => ⟨_, rfl, hP _⟩⟩
      | _ =>
          -- the operands are read as values, so they come to the same constants
          have hlc := (simplifyBool_simplifiedTo hk.1).2 rfl
          have hmc := (simplifyBool_simplifiedTo hk.2).2 rfl
          exact ⟨ihl h.1 hk.1, ihm h.2.1 hk.2,
            fun a b ha hb => h.2.2 a b (hlc ▸ ha) (hmc ▸ hb)⟩
  | not c ih =>
      have hc := ih h hk.1
      exact simplifyNot_cases (ConstantsEvaluate P) hc (fun d hd => by rw [hd] at hc; exact hc)
  | aliased c n ih => exact ih h hk
  | _ => exact h

theorem simplifyBool_prints (h : e.prints = true) : (simplifyBool e).prints = true := by
  induction e with
  | binary op l m ihl ihm =>
      rw [Expression.prints, Bool.and_eq_true] at h
      have hl := ihl h.1
      have hm := ihm h.2
      have hboth : ∀ op, (Expression.binary op (simplifyBool l) (simplifyBool m)).prints = true :=
        fun _ => by rw [Expression.prints, hl, hm, Bool.and_self]
      cases op with
      | and => exact simplifyAnd_cases (fun e => e.prints = true) rfl hl hm (hboth _)
      | or => exact simplifyOr_cases (fun e => e.prints = true) rfl hl hm (hboth _)
      | _ => exact hboth _
  | not c ih =>
      have hc := ih h
      exact simplifyNot_cases (fun e => e.prints = true) hc (fun d hd => by rw [hd] at hc; exact hc)
  | aliased c n ih => exact ih h
  | _ => exact h

end Kept

end Simplification

end MiniSpark
