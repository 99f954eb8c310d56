import MiniSpark.OptimizerSemantics

/-!
# Which values simplification keeps

`And`, `Or` and `Not` turn their operands into bools; the rewrites put an operand
in their place as it is. A value is kept where it is read exactly when what is
left of the connective is a bool already. Values are read at the top of an
expression and at the operands of comparisons and arithmetic.
-/
namespace MiniSpark

variable {F : Type} [PyRuntime F]

section Definitions

omit [PyRuntime F]

/-- `isinstance(value, bool)`. -/
def Value.isBool : Value F → Bool
  | .bool _ => true
  | _ => false

/-- `Add`, `Subtract`, `Multiply`, `Divide`. -/
def BinaryOp.isArithmetic : BinaryOp → Bool
  | .add => true
  | .subtract => true
  | .multiply => true
  | .divide => true
  | _ => false

namespace Expression

/-- The value of a literal. -/
def literal? : Expression F → Option (Value F)
  | .literal v => some v
  | _ => none

/-- `And`, `Or` or `Not`, under any aliases. -/
def isConnective : Expression F → Bool
  | .binary .and _ _ => true
  | .binary .or _ _ => true
  | .not _ => true
  | .aliased child _ => child.isConnective
  | _ => false

/-- The operands of comparisons and arithmetic that simplification reaches. -/
def readOperands : Expression F → List (Expression F)
  | .binary .and left right => left.readOperands ++ right.readOperands
  | .binary .or left right => left.readOperands ++ right.readOperands
  | .binary _ left right => (left :: left.readOperands) ++ (right :: right.readOperands)
  | .not child => child.readOperands
  | .aliased child _ => child.readOperands
  | _ => []

end Expression

end Definitions

namespace Expression

/-- The literal an expression, or its negation, comes down to when literal operands
decide its connectives and pairs of negations cancel. -/
def decided : (negated : Bool) → Expression F → Option (Value F)
  | negated, .binary .and left right =>
      match left.decided false, right.decided false with
      | some a, _ =>
          if a.truthy then right.decided negated
          else if negated then none else some (.bool false)
      | none, some b =>
          if b.truthy then left.decided negated
          else if negated then none else some (.bool false)
      | none, none => none
  | negated, .binary .or left right =>
      match left.decided false, right.decided false with
      | some a, _ =>
          if a.truthy then if negated then none else some (.bool true)
          else right.decided negated
      | none, some b =>
          if b.truthy then if negated then none else some (.bool true)
          else left.decided negated
      | none, none => none
  | negated, .not child => child.decided (!negated)
  | false, .literal v => some v
  | _, _ => none

/-- What is left of an expression, or of its negation, is a bool on the record: the
operand beside a literal that does not decide the connective is followed. -/
def leavesBool (r : Record F) : (negated : Bool) → Expression F → Bool
  | negated, .binary .and left right =>
      match left.decided false, right.decided false with
      | some a, _ => if a.truthy then right.leavesBool r negated else true
      | none, some b => if b.truthy then left.leavesBool r negated else true
      | none, none => true
  | negated, .binary .or left right =>
      match left.decided false, right.decided false with
      | some a, _ => if a.truthy then true else right.leavesBool r negated
      | none, some b => if b.truthy then true else left.leavesBool r negated
      | none, none => true
  | negated, .not child => child.leavesBool r (!negated)
  | true, _ => true
  | false, .column name => (r.get? name).any Value.isBool
  | false, .literal v => v.isBool
  | false, .aliased child _ => child.leavesBool r false
  | false, .binary op _ _ => !op.isArithmetic
  | false, _ => true

end Expression

section Decided

/-- A simplified `And` by which of its sides are literals. -/
lemma simplifyAnd_eq (l m : Expression F) : simplifyAnd l m =
    match l.literal?, m.literal? with
    | some a, _ => if a.truthy then m else .literal (.bool false)
    | none, some b => if b.truthy then l else .literal (.bool false)
    | none, none => .binary .and l m := by
  cases l <;> cases m <;> rfl

/-- A simplified `Or` by which of its sides are literals. -/
lemma simplifyOr_eq (l m : Expression F) : simplifyOr l m =
    match l.literal?, m.literal? with
    | some a, _ => if a.truthy then .literal (.bool true) else m
    | none, some b => if b.truthy then .literal (.bool true) else l
    | none, none => .binary .or l m := by
  cases l <;> cases m <;> rfl

/-- A simplified expression has no double negation. -/
theorem simplifyBool_not {e c : Expression F} (h : simplifyBool e = .not c) : c.isNot = false := by
  induction e generalizing c with
  | binary op l m ihl ihm =>
      cases op with
      | and =>
          rw [simplifyBool, simplifyAnd_eq] at h
          split at h
          · split at h
            · exact ihm h
            · cases h
          · split at h
            · exact ihl h
            · cases h
          · cases h
      | or =>
          rw [simplifyBool, simplifyOr_eq] at h
          split at h
          · split at h
            · cases h
            · exact ihm h
          · split at h
            · cases h
            · exact ihl h
          · cases h
      | _ => cases h
  | not d ih =>
      rw [simplifyBool] at h
      cases hd : simplifyBool d with
      | not d' =>
          rw [hd] at h
          obtain rfl : d' = .not c := h
          exact absurd (ih hd) (by simp [Expression.isNot])
      | _ =>
          rw [hd] at h
          cases h
          rfl
  | _ => cases h

/-- Negating twice gives a simplified expression back. -/
lemma simplifyNot_simplifyNot (e : Expression F) :
    simplifyNot (simplifyNot (simplifyBool e)) = simplifyBool e := by
  cases h : simplifyBool e with
  | not c =>
      have hc := simplifyBool_not h
      cases c <;> first | rfl | cases hc
  | _ => rfl

/-- The simplified expression, or its simplified negation. -/
def simplifySigned (negated : Bool) (e : Expression F) : Expression F :=
  if negated then simplifyNot (simplifyBool e) else simplifyBool e

lemma simplifySigned_not (negated : Bool) (c : Expression F) :
    simplifySigned negated (.not c) = simplifySigned (!negated) c := by
  cases negated with
  | false => rfl
  | true => exact simplifyNot_simplifyNot c

lemma simplifySigned_and (negated : Bool) (l m : Expression F) :
    simplifySigned negated (.binary .and l m) =
      match (simplifyBool l).literal?, (simplifyBool m).literal? with
      | some a, _ =>
          if a.truthy then simplifySigned negated m
          else simplifySigned negated (.literal (.bool false))
      | none, some b =>
          if b.truthy then simplifySigned negated l
          else simplifySigned negated (.literal (.bool false))
      | none, none =>
          if negated then .not (.binary .and (simplifyBool l) (simplifyBool m))
          else .binary .and (simplifyBool l) (simplifyBool m) := by
  unfold simplifySigned
  rw [simplifyBool, simplifyAnd_eq]
  cases negated <;> simp only [Bool.false_eq_true, if_false, if_true] <;> split <;>
    first | rfl | (split <;> rfl)

lemma simplifySigned_or (negated : Bool) (l m : Expression F) :
    simplifySigned negated (.binary .or l m) =
      match (simplifyBool l).literal?, (simplifyBool m).literal? with
      | some a, _ =>
          if a.truthy then simplifySigned negated (.literal (.bool true))
          else simplifySigned negated m
      | none, some b =>
          if b.truthy then simplifySigned negated (.literal (.bool true))
          else simplifySigned negated l
      | none, none =>
          if negated then .not (.binary .or (simplifyBool l) (simplifyBool m))
          else .binary .or (simplifyBool l) (simplifyBool m) := by
  unfold simplifySigned
  rw [simplifyBool, simplifyOr_eq]
  cases negated <;> simp only [Bool.false_eq_true, if_false, if_true] <;> split <;>
    first | rfl | (split <;> rfl)

/-- Simplification yields a literal exactly where literal operands decide. -/
theorem simplifySigned_literal? (negated : Bool) (e : Expression F) :
    (simplifySigned negated e).literal? = e.decided negated := by
  induction e generalizing negated with
  | binary op l m ihl ihm =>
      have hl : (simplifyBool l).literal? = l.decided false := ihl false
      have hm : (simplifyBool m).literal? = m.decided false := ihm false
      cases op with
      | and =>
          rw [simplifySigned_and, hl, hm, Expression.decided]
          split
          · split
            · exact ihm negated
            · cases negated <;> rfl
          · split
            · exact ihl negated
            · cases negated <;> rfl
          · cases negated <;> rfl
      | or =>
          rw [simplifySigned_or, hl, hm, Expression.decided]
          split
          · split
            · cases negated <;> rfl
            · exact ihm negated
          · split
            · cases negated <;> rfl
            · exact ihl negated
          · cases negated <;> rfl
      | _ => cases negated <;> rfl
  | not c ih => rw [simplifySigned_not, ih, Expression.decided]
  | _ => cases negated <;> rfl

end Decided

section Kept

/-- Simplification keeps the value the expression has on the record. -/
def KeepsValueOn (r : Record F) (e : Expression F) : Prop :=
  ∀ v, e.evaluate r = .ok v → (simplifyBool e).evaluate r = .ok v

omit [PyRuntime F] in
lemma Value.isBool_iff {v : Value F} : v.isBool = true ↔ ∃ b, v = .bool b := by
  cases v <;> simp [Value.isBool]

lemma Num.arith_isBool {onInt : ℤ → ℤ → ℤ} {onFloat : F → F → F} {x y : Num F} {v : Value F}
    (h : Num.arith onInt onFloat x y = .ok v) : v.isBool = false := by
  unfold Num.arith at h
  split at h
  · cases h
    rfl
  · obtain ⟨a, -, h⟩ := ExceptList.bind_eq_ok.mp h
    obtain ⟨b, -, h⟩ := ExceptList.bind_eq_ok.mp h
    cases h
    rfl

lemma Num.truediv_isBool {x y : Num F} {v : Value F} (h : Num.truediv x y = .ok v) :
    v.isBool = false := by
  unfold Num.truediv at h
  split at h
  · next i j =>
      split at h
      · cases h
      · cases hd : PyRuntime.intDiv (F := F) i j <;> rw [hd] at h <;> cases h
        rfl
  · obtain ⟨a, -, h⟩ := ExceptList.bind_eq_ok.mp h
    obtain ⟨b, -, h⟩ := ExceptList.bind_eq_ok.mp h
    split at h <;> cases h
    rfl

omit [PyRuntime F] in
lemma Value.onNumbers_isBool [PyRuntime F] {f : Num F → Num F → Py (Value F)} {a b v : Value F}
    (hf : ∀ x y, f x y = .ok v → v.isBool = false) (h : Value.onNumbers f a b = .ok v) :
    v.isBool = false := by
  unfold Value.onNumbers at h
  split at h
  · exact hf _ _ h
  · cases h

/-- Comparisons and connectives yield bools, arithmetic never does. -/
lemma BinaryOp.op_isBool {op : BinaryOp} {a b v : Value F} (h : op.op a b = .ok v) :
    v.isBool = !op.isArithmetic := by
  cases op with
  | greaterThan | greaterEqual | lessThan | lessEqual =>
      obtain ⟨c, -, rfl⟩ := ExceptList.map_eq_ok.mp h
      rfl
  | equal | notEqual | and | or =>
      cases h
      rfl
  | add =>
      simp only [BinaryOp.op, Value.add] at h
      split at h
      · cases h
        rfl
      · exact Value.onNumbers_isBool (fun _ _ => Num.arith_isBool) h
  | subtract => exact Value.onNumbers_isBool (fun _ _ => Num.arith_isBool) h
  | multiply =>
      simp only [BinaryOp.op, Value.mul] at h
      split at h
      · split at h <;> cases h
        rfl
      · split at h <;> cases h
        rfl
      · exact Value.onNumbers_isBool (fun _ _ => Num.arith_isBool) h
  | divide => exact Value.onNumbers_isBool (fun _ _ => Num.truediv_isBool) h

lemma simplifySigned_true {e : Expression F} {r : Record F} {v w : Value F}
    (hw : (simplifyBool e).evaluate r = .ok w) (ht : w.truthy = v.truthy)
    (hstays : ∀ c, simplifyBool e ≠ .not c) :
    ∃ w, (simplifySigned true e).evaluate r = .ok w ∧ w.truthy = (v.truthy ^^ true) ∧
      w.isBool = true := by
  have hnot : simplifySigned true e = .not (simplifyBool e) := by
    unfold simplifySigned
    rw [if_pos rfl]
    cases h : simplifyBool e <;> first | rfl | exact absurd h (hstays _)
  exact ⟨_, by rw [hnot]; exact Expression.evaluate_not_ok.mpr ⟨w, hw, rfl⟩, by simp [ht], rfl⟩

lemma evaluate_signedLiteral (negated b : Bool) (r : Record F) :
    ∃ w, (simplifySigned negated (.literal (.bool b))).evaluate r = .ok w ∧
      w.truthy = (b ^^ negated) ∧ w.isBool = true := by
  cases negated <;> cases b <;> exact ⟨_, rfl, rfl, rfl⟩

lemma simplifyBool_literal? (e : Expression F) : (simplifyBool e).literal? = e.decided false :=
  simplifySigned_literal? false e

/-- A literal that decides an expression has its truth. -/
lemma truthy_of_decided {e : Expression F} {r : Record F} {v x : Value F} {P : Value F → Prop}
    (hx : e.decided false = some x)
    (h : ∃ w, (simplifySigned false e).evaluate r = .ok w ∧ w.truthy = (v.truthy ^^ false) ∧ P w) :
    x.truthy = v.truthy := by
  obtain ⟨w, hw, ht, -⟩ := h
  rw [← simplifySigned_literal?] at hx
  cases hs : simplifySigned false e with
  | literal y =>
      rw [hs] at hx hw
      cases hx
      cases hw
      simpa using ht
  | _ =>
      rw [hs] at hx
      cases hx

/-- A connective that stays, or its negation. -/
lemma evaluate_signed {e : Expression F} {r : Record F} {b c : Bool}
    (he : e.evaluate r = .ok (.bool b)) (hb : b = c) (negated : Bool) :
    ∃ w, (if negated then .not e else e).evaluate r = .ok w ∧ w.truthy = (c ^^ negated) ∧
      w.isBool = true := by
  cases negated with
  | false => exact ⟨_, he, by simp [hb], rfl⟩
  | true => exact ⟨_, Expression.evaluate_not_ok.mpr ⟨_, he, rfl⟩, by simp [hb], rfl⟩

/-- With the operands of comparisons and arithmetic kept, the truth is kept, and the
result is a bool exactly where what is left of the expression is one. -/
theorem simplifySigned_evaluate {r : Record F} {e : Expression F} {v : Value F}
    (hops : ∀ f ∈ e.readOperands, KeepsValueOn r f) (hv : e.evaluate r = .ok v) (negated : Bool) :
    ∃ w, (simplifySigned negated e).evaluate r = .ok w ∧ w.truthy = (v.truthy ^^ negated) ∧
      w.isBool = e.leavesBool r negated := by
  induction e generalizing negated v with
  | binary op l m ihl ihm =>
      obtain ⟨a, b, ha, hb, hop⟩ := Expression.evaluate_binary_ok.mp hv
      cases op with
      | and =>
          cases hop
          have hl := ihl (fun f hf => hops f (List.mem_append_left _ hf)) ha
          have hm := ihm (fun f hf => hops f (List.mem_append_right _ hf)) hb
          rw [simplifySigned_and, Expression.leavesBool, simplifyBool_literal?,
            simplifyBool_literal?]
          cases hlv : l.decided false with
          | some x =>
              have hx := truthy_of_decided hlv (hl false)
              dsimp only
              split
              · next hxt => simpa [← hx, hxt] using hm negated
              · next hxt => simpa [← hx, hxt] using evaluate_signedLiteral negated false r
          | none =>
              cases hmv : m.decided false with
              | some y =>
                  have hy := truthy_of_decided hmv (hm false)
                  dsimp only
                  split
                  · next hyt => simpa [← hy, hyt] using hl negated
                  · next hyt => simpa [← hy, hyt] using evaluate_signedLiteral negated false r
              | none =>
                  obtain ⟨a', ha', hat, -⟩ := hl false
                  obtain ⟨b', hb', hbt, -⟩ := hm false
                  have hand : (Expression.binary .and (simplifyBool l) (simplifyBool m)).evaluate r =
                      .ok (.bool (a'.truthy && b'.truthy)) :=
                    Expression.evaluate_binary_ok.mpr ⟨a', b', ha', hb', rfl⟩
                  exact evaluate_signed hand (by simp [hat, hbt]) negated
      | or =>
          cases hop
          have hl := ihl (fun f hf => hops f (List.mem_append_left _ hf)) ha
          have hm := ihm (fun f hf => hops f (List.mem_append_right _ hf)) hb
          rw [simplifySigned_or, Expression.leavesBool, simplifyBool_literal?,
            simplifyBool_literal?]
          cases hlv : l.decided false with
          | some x =>
              have hx := truthy_of_decided hlv (hl false)
              dsimp only
              split
              · next hxt => simpa [← hx, hxt] using evaluate_signedLiteral negated true r
              · next hxt => simpa [← hx, hxt] using hm negated
          | none =>
              cases hmv : m.decided false with
              | some y =>
                  have hy := truthy_of_decided hmv (hm false)
                  dsimp only
                  split
                  · next hyt => simpa [← hy, hyt] using evaluate_signedLiteral negated true r
                  · next hyt => simpa [← hy, hyt] using hl negated
              | none =>
                  obtain ⟨a', ha', hat, -⟩ := hl false
                  obtain ⟨b', hb', hbt, -⟩ := hm false
                  have hor : (Expression.binary .or (simplifyBool l) (simplifyBool m)).evaluate r =
                      .ok (.bool (a'.truthy || b'.truthy)) :=
                    Expression.evaluate_binary_ok.mpr ⟨a', b', ha', hb', rfl⟩
                  exact evaluate_signed hor (by simp [hat, hbt]) negated
      | _ =>
          have hl := hops l (List.mem_append_left _ List.mem_cons_self) a ha
          have hm := hops m (List.mem_append_right _ List.mem_cons_self) b hb
          have hkept := Expression.evaluate_binary_ok.mpr ⟨a, b, hl, hm, hop⟩
          cases negated with
          | false => exact ⟨v, hkept, by simp, BinaryOp.op_isBool hop⟩
          | true => exact simplifySigned_true hkept rfl (by simp [simplifyBool])
  | not c ih =>
      obtain ⟨a, ha, rfl⟩ := Expression.evaluate_not_ok.mp hv
      obtain ⟨w, hw, ht, hb⟩ := ih hops ha (!negated)
      rw [← simplifySigned_not] at hw
      exact ⟨w, hw, by simpa using ht, hb⟩
  | aliased c n ih =>
      cases negated with
      | false => exact ih hops hv false
      | true =>
          obtain ⟨w, hw, ht, -⟩ := ih hops hv false
          exact simplifySigned_true (e := .aliased c n) hw (by simpa using ht) (by simp [simplifyBool])
  | column n =>
      cases negated with
      | false =>
          refine ⟨v, hv, by simp, ?_⟩
          rw [Expression.evaluate_column, Expression.lookupColumn_eq_ok] at hv
          simp [Expression.leavesBool, hv]
      | true => exact simplifySigned_true (e := .column n) hv rfl (by simp [simplifyBool])
  | literal u =>
      cases hv
      cases negated with
      | false => exact ⟨u, rfl, by simp, rfl⟩
      | true => exact simplifySigned_true (e := .literal u) rfl rfl (by simp [simplifyBool])
  | isNull c _ =>
      cases negated with
      | false =>
          obtain ⟨a, ha, rfl⟩ := Expression.evaluate_isNull_ok.mp hv
          exact ⟨_, hv, by simp, rfl⟩
      | true => exact simplifySigned_true (e := .isNull c) hv rfl (by simp [simplifyBool])
  | isNotNull c _ =>
      cases negated with
      | false =>
          obtain ⟨a, ha, rfl⟩ := Expression.evaluate_isNotNull_ok.mp hv
          exact ⟨_, hv, by simp, rfl⟩
      | true => exact simplifySigned_true (e := .isNotNull c) hv rfl (by simp [simplifyBool])
  | _ => cases hv

lemma Expression.isBool_of_isConnective {e : Expression F} {r : Record F} {v : Value F}
    (hc : e.isConnective = true) (hv : e.evaluate r = .ok v) : v.isBool = true := by
  induction e with
  | binary op l m _ _ =>
      obtain ⟨a, b, -, -, hop⟩ := Expression.evaluate_binary_ok.mp hv
      rw [BinaryOp.op_isBool hop]
      cases op <;> first | rfl | cases hc
  | not c _ =>
      obtain ⟨a, -, rfl⟩ := Expression.evaluate_not_ok.mp hv
      rfl
  | aliased c n ih => exact ih hc hv
  | _ => cases hc

/-- Outside the connectives only operands are rewritten. -/
lemma keepsValueOn_of_nonconnective {e : Expression F} {r : Record F}
    (hops : ∀ f ∈ e.readOperands, KeepsValueOn r f) (hc : e.isConnective = false) :
    KeepsValueOn r e := by
  intro v hv
  induction e with
  | binary op l m _ _ =>
      obtain ⟨a, b, ha, hb, hop⟩ := Expression.evaluate_binary_ok.mp hv
      cases op with
      | and | or => cases hc
      | _ =>
          have hl := hops l (List.mem_append_left _ List.mem_cons_self) a ha
          have hm := hops m (List.mem_append_right _ List.mem_cons_self) b hb
          exact Expression.evaluate_binary_ok.mpr ⟨a, b, hl, hm, hop⟩
  | not c _ => cases hc
  | aliased c n ih => exact ih hops hc hv
  | _ => exact hv

/-- With its operands kept, an expression keeps its value exactly when it is no
connective or what is left of it is a bool. -/
theorem keepsValueOn_iff {e : Expression F} {r : Record F} {v : Value F}
    (hops : ∀ f ∈ e.readOperands, KeepsValueOn r f) (hv : e.evaluate r = .ok v) :
    KeepsValueOn r e ↔ (e.isConnective = true → e.leavesBool r false = true) := by
  obtain ⟨w, hw, ht, hb⟩ := simplifySigned_evaluate hops hv false
  have hw' : (simplifyBool e).evaluate r = .ok w := hw
  constructor
  · intro h hc
    obtain rfl : v = w := Except.ok.inj ((h v hv).symm.trans hw')
    rw [← hb]
    exact Expression.isBool_of_isConnective hc hv
  · intro h
    cases hc : e.isConnective with
    | false => exact keepsValueOn_of_nonconnective hops hc
    | true =>
        intro u hu
        obtain rfl : v = u := Except.ok.inj (hv.symm.trans hu)
        obtain ⟨b, rfl⟩ := Value.isBool_iff.mp (hb.trans (h hc))
        obtain ⟨c, rfl⟩ := Value.isBool_iff.mp (Expression.isBool_of_isConnective hc hv)
        obtain rfl : b = c := by simpa using ht
        exact hw'

/-- Operands that leave bools keep their values, from the inside out. -/
lemma readOperands_keep {e : Expression F} {r : Record F} {v : Value F} (hv : e.evaluate r = .ok v)
    (h : ∀ f ∈ e.readOperands, f.isConnective = true → f.leavesBool r false = true) :
    ∀ f ∈ e.readOperands, KeepsValueOn r f := by
  induction e generalizing v with
  | binary op l m ihl ihm =>
      obtain ⟨a, b, ha, hb, -⟩ := Expression.evaluate_binary_ok.mp hv
      have hconn : (∀ f ∈ l.readOperands ++ m.readOperands,
            f.isConnective = true → f.leavesBool r false = true) →
          ∀ f ∈ l.readOperands ++ m.readOperands, KeepsValueOn r f := by
        intro h
        obtain ⟨hl, hm⟩ := List.forall_mem_append.mp h
        exact List.forall_mem_append.mpr ⟨ihl ha hl, ihm hb hm⟩
      have hread : (∀ f ∈ (l :: l.readOperands) ++ (m :: m.readOperands),
            f.isConnective = true → f.leavesBool r false = true) →
          ∀ f ∈ (l :: l.readOperands) ++ (m :: m.readOperands), KeepsValueOn r f := by
        intro h
        obtain ⟨hl, hm⟩ := List.forall_mem_append.mp h
        obtain ⟨hl, hls⟩ := List.forall_mem_cons.mp hl
        obtain ⟨hm, hms⟩ := List.forall_mem_cons.mp hm
        have hkl := ihl ha hls
        have hkm := ihm hb hms
        exact List.forall_mem_append.mpr
          ⟨List.forall_mem_cons.mpr ⟨(keepsValueOn_iff hkl ha).mpr hl, hkl⟩,
            List.forall_mem_cons.mpr ⟨(keepsValueOn_iff hkm hb).mpr hm, hkm⟩⟩
      cases op <;> first | exact hconn h | exact hread h
  | not c ih =>
      obtain ⟨a, ha, -⟩ := Expression.evaluate_not_ok.mp hv
      exact ih ha h
  | aliased c n ih => exact ih hv h
  | _ => exact fun f hf => absurd hf List.not_mem_nil

/-- An operand that simplification reaches has a value where the expression has one,
and its own operands are reached too. -/
lemma readOperands_reached {e f : Expression F} {r : Record F} {v : Value F}
    (hv : e.evaluate r = .ok v) (hf : f ∈ e.readOperands) :
    (∃ w, f.evaluate r = .ok w) ∧ f.readOperands ⊆ e.readOperands := by
  induction e generalizing v with
  | binary op l m ihl ihm =>
      obtain ⟨a, b, ha, hb, -⟩ := Expression.evaluate_binary_ok.mp hv
      have hconn : f ∈ l.readOperands ++ m.readOperands →
          (∃ w, f.evaluate r = .ok w) ∧ f.readOperands ⊆ l.readOperands ++ m.readOperands := by
        intro hf
        rcases List.mem_append.mp hf with hf | hf
        · exact ⟨(ihl ha hf).1, List.subset_append_of_subset_left _ (ihl ha hf).2⟩
        · exact ⟨(ihm hb hf).1, List.subset_append_of_subset_right _ (ihm hb hf).2⟩
      have hread : f ∈ (l :: l.readOperands) ++ (m :: m.readOperands) →
          (∃ w, f.evaluate r = .ok w) ∧
            f.readOperands ⊆ (l :: l.readOperands) ++ (m :: m.readOperands) := by
        intro hf
        rcases List.mem_append.mp hf with hf | hf
        · rcases List.mem_cons.mp hf with rfl | hf
          · exact ⟨⟨a, ha⟩, List.subset_append_of_subset_left _ (List.subset_cons_self _ _)⟩
          · exact ⟨(ihl ha hf).1,
              List.subset_append_of_subset_left _ (List.subset_cons_of_subset _ (ihl ha hf).2)⟩
        · rcases List.mem_cons.mp hf with rfl | hf
          · exact ⟨⟨b, hb⟩, List.subset_append_of_subset_right _ (List.subset_cons_self _ _)⟩
          · exact ⟨(ihm hb hf).1,
              List.subset_append_of_subset_right _ (List.subset_cons_of_subset _ (ihm hb hf).2)⟩
      cases op <;> first | exact hconn hf | exact hread hf
  | not c ih =>
      obtain ⟨a, ha, -⟩ := Expression.evaluate_not_ok.mp hv
      exact ih ha hf
  | aliased c n ih => exact ih hv hf
  | _ => exact absurd hf List.not_mem_nil

/-- Simplification keeps the value of an expression and of every operand of a
comparison or an arithmetic operation in it exactly when each connective among them
leaves a bool. -/
theorem simplifyBool_keeps_iff {e : Expression F} {r : Record F} {v : Value F}
    (hv : e.evaluate r = .ok v) :
    (∀ f ∈ e :: e.readOperands, KeepsValueOn r f) ↔
      ∀ f ∈ e :: e.readOperands, f.isConnective = true → f.leavesBool r false = true := by
  constructor
  · intro h f hf
    have hreached : (∃ w, f.evaluate r = .ok w) ∧ f.readOperands ⊆ e.readOperands := by
      rcases List.mem_cons.mp hf with rfl | hf
      · exact ⟨⟨v, hv⟩, List.Subset.refl _⟩
      · exact readOperands_reached hv hf
    obtain ⟨⟨w, hw⟩, hsub⟩ := hreached
    have hops : ∀ g ∈ f.readOperands, KeepsValueOn r g :=
      fun g hg => h g (List.mem_cons_of_mem _ (hsub hg))
    exact (keepsValueOn_iff hops hw).mp (h f hf)
  · intro h
    obtain ⟨he, hrest⟩ := List.forall_mem_cons.mp h
    have hops := readOperands_keep hv hrest
    exact List.forall_mem_cons.mpr ⟨(keepsValueOn_iff hops hv).mpr he, hops⟩

end Kept

section Examples

/-- `And(a, True)`. -/
def aAndTrue : Expression ℚ := .binary .and (.column "a") (.literal (.bool true))

theorem simplifyBool_keeps_iff_bool :
    (∀ f ∈ aAndTrue :: aAndTrue.readOperands,
        KeepsValueOn (OrderedDict.ofList [("a", .bool true)]) f) ↔
      ∀ f ∈ aAndTrue :: aAndTrue.readOperands, f.isConnective = true →
        f.leavesBool (OrderedDict.ofList [("a", .bool true)]) false = true :=
  simplifyBool_keeps_iff (v := .bool true) rfl

/-- On `{"a": 5}` the connective is true and its operand, put in its place, is 5. -/
theorem simplifyBool_changes_value :
    ¬ ∀ (e : Expression ℚ) (r : Record ℚ) (v : Value ℚ), e.evaluate r = .ok v →
      (simplifyBool e).evaluate r = .ok v := by
  intro h
  have hfive := h aAndTrue (OrderedDict.ofList [("a", .int 5)]) (.bool true) rfl
  cases hfive

end Examples

end MiniSpark
