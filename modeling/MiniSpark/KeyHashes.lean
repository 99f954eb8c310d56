import MiniSpark.ReprTexts
import MiniSpark.RowOperators

/-!
# Which equal keys hash alike

The tables of a group-by and of a join compare keys with `==`, the hash partitioner compares
their texts. Equal keys print the same exactly when they are of the same types, position by
position, and no two floats in them print differently.
-/
namespace MiniSpark

open UniqueReading

variable {F : Type} [PyRuntime F]

section Texts

lemma utf8Bytes_injective : Function.Injective utf8Bytes := by
  intro s t h
  have hbytes : s.toList.flatMap String.utf8EncodeChar = t.toList.flatMap String.utf8EncodeChar :=
    List.map_injective_iff.mpr (fun a b => UInt8.toNat_inj.mp) h
  have harray : s.toList.utf8Encode = t.toList.utf8Encode := by
    rw [List.utf8Encode, List.utf8Encode, hbytes]
  rwa [String.utf8Encode_toList, String.utf8Encode_toList, String.toByteArray_inj] at harray

/-- What closes a tuple; one element is followed by a comma. -/
def closeTuple (k : List (Value F)) : List Char := if k.length = 1 then [',', ')'] else [')']

omit [PyRuntime F] in
lemma follows_closeTuple (k : List (Value F)) : Follows Special (closeTuple k) := by
  unfold closeTuple
  split
  · exact (by decide : Special ',')
  · exact (by decide : Special ')')

lemma tupleText_toList (k : List (Value F)) : (tupleText k).toList =
    '(' :: ([',', ' '].intercalate (k.map (fun v => v.text.toList)) ++ closeTuple k) := by
  match k with
  | [] => simp [tupleText, closeTuple]
  | [v] => simp [tupleText, closeTuple]
  | v :: w :: k => simp [tupleText, closeTuple, String.toList_intercalate, Function.comp_def]

end Texts

/-- Whether a dict takes one key for the other: the same objects, or equal ones. -/
def Identified (k k' : List (Value F)) : Prop :=
  List.Forall₂ (fun v w => v = w ∨ (v == w) = true) k k'

/-- Scalars of one type; floats that print the same. -/
def Value.PrintsLike : Value F → Value F → Prop
  | .none, .none => True
  | .bool _, .bool _ => True
  | .int _, .int _ => True
  | .float x, .float y => PyRuntime.reprFloat x = PyRuntime.reprFloat y
  | .str _, .str _ => True
  | _, _ => False

section Scalars

variable {v w : Value F}

/-- Equal scalars that differ are numbers. -/
lemma eq_or_num (hv : v.IsScalar) (h : v = w ∨ (v == w) = true) :
    v = w ∨ v.num?.isSome = true ∧ w.num?.isSome = true := by
  refine h.elim Or.inl (fun h => ?_)
  change v.pyEq w = true at h
  cases v with
  | none => cases w <;> first | exact Or.inl rfl | simp [Value.pyEq, Value.num?] at h
  | str s =>
      cases w with
      | str t => exact Or.inl (congrArg Value.str (by simpa [Value.pyEq] using h))
      | _ => simp [Value.pyEq, Value.num?] at h
  | pair a b => exact absurd hv id
  | bool b | int i | float x =>
      refine Or.inr ⟨rfl, ?_⟩
      cases w <;> first | rfl | simp [Value.pyEq, Value.num?] at h

omit [PyRuntime F] in
lemma isPlain_of_num (h : v.num?.isSome = true) : v.IsPlain := by
  cases v <;> trivial

lemma printsLike_refl (hv : v.IsScalar) : v.PrintsLike v := by
  cases v <;> trivial

/-- Equal scalars print the same exactly when they are of one type. -/
lemma repr_eq_iff (hF : FloatTexts F) (hv : v.IsScalar) (h : v = w ∨ (v == w) = true) :
    v.text = w.text ↔ v.PrintsLike w := by
  obtain rfl | ⟨hnum, hnum'⟩ := eq_or_num hv h
  · exact iff_of_true rfl (printsLike_refl hv)
  cases v with
  | none | str s | pair a b => cases hnum
  | bool b =>
      cases w with
      | none | str s | pair a b => cases hnum'
      | bool c =>
          refine iff_of_true ?_ trivial
          revert h
          cases b <;> cases c <;> simp [BEq.beq, Value.pyEq, Value.num?, Num.eq]
      | int j => exact iff_of_false (fun heq => reprBool_ne_int b j heq.symm) id
      | float y => exact iff_of_false (reprBool_ne_float hF b y) id
  | int i =>
      cases w with
      | none | str s | pair a b => cases hnum'
      | bool c => exact iff_of_false (reprBool_ne_int c i) id
      | int j =>
          refine iff_of_true ?_ trivial
          obtain rfl : i = j := by simpa [BEq.beq, Value.pyEq, Value.num?, Num.eq] using h
          rfl
      | float y => exact iff_of_false (reprFloat_ne_int hF y i) id
  | float x =>
      cases w with
      | none | str s | pair a b => cases hnum'
      | bool c => exact iff_of_false (fun heq => reprBool_ne_float hF c x heq.symm) id
      | int j => exact iff_of_false (fun heq => reprFloat_ne_int hF x j heq.symm) id
      | float y => exact Iff.rfl

end Scalars

section Keys

variable {k k' : List (Value F)}

/-- Identified keys have one text exactly when their elements do. -/
theorem tupleText_eq_iff (hF : FloatTexts F) (hk : ∀ v ∈ k, v.IsScalar) (h : Identified k k') :
    tupleText k = tupleText k' ↔ List.Forall₂ Value.PrintsLike k k' := by
  have hscalar : List.Forall₂ (fun v w => v.IsScalar ∧ (v = w ∨ (v == w) = true)) k k' :=
    ExceptList.forall₂_imp_of_mem h (fun v hv _ _ hvw => ⟨hk v hv, hvw⟩)
  have hlen : k.length = k'.length := h.length_eq
  have hclose : closeTuple k = closeTuple k' := by rw [closeTuple, closeTuple, hlen]
  have hplain : List.Forall₂ (fun x y => x = y ∨ Plain Special x ∧ Plain Special y)
      (k.map (fun v => v.text.toList)) (k'.map (fun v => v.text.toList)) := by
    rw [List.forall₂_map_left_iff, List.forall₂_map_right_iff]
    refine hscalar.imp fun v w ⟨hv, hvw⟩ => ?_
    obtain rfl | ⟨hnum, hnum'⟩ := eq_or_num hv hvw
    · exact Or.inl rfl
    · exact Or.inr ⟨plain_text hF (isPlain_of_num hnum), plain_text hF (isPlain_of_num hnum')⟩
  have htexts : tupleText k = tupleText k' ↔
      k.map (fun v => v.text.toList) = k'.map (fun v => v.text.toList) := by
    rw [← String.toList_inj, tupleText_toList, tupleText_toList, List.cons.injEq]
    constructor
    · rintro ⟨-, htext⟩
      exact (intercalate_inj (by decide : Special ',') hplain (follows_closeTuple k)
        (follows_closeTuple k') htext).1
    · intro heq
      rw [heq, hclose]
      exact ⟨rfl, rfl⟩
  have helements : List.Forall₂ Value.PrintsLike k k' ↔
      List.Forall₂ (fun v w => v.text.toList = w.text.toList) k k' := by
    constructor
    · intro hall
      refine (List.Forall₂.mp (fun v w hs hp => ?_) hscalar hall)
      rw [(repr_eq_iff hF hs.1 hs.2).mpr hp]
    · intro hall
      refine (List.Forall₂.mp (fun v w hs hp => ?_) hscalar hall)
      exact (repr_eq_iff hF hs.1 hs.2).mp (String.toList_inj.mp hp)
  rw [htexts, helements, ← List.forall₂_eq_eq_eq, List.forall₂_map_left_iff,
    List.forall₂_map_right_iff]

/-- Keys of one hash meet. -/
lemma textTarget_congr (p : HashPartitioner)
    (h : leadingDigest (tupleText k) = leadingDigest (tupleText k')) :
    p.textTarget k = p.textTarget k' := by
  rw [HashPartitioner.textTarget, HashPartitioner.textTarget, h]

/-- Hashes that agree for every number of partitions are equal. -/
lemma textTarget_eq_iff : (∀ p : HashPartitioner, p.textTarget k = p.textTarget k') ↔
    leadingDigest (tupleText k) = leadingDigest (tupleText k') := by
  constructor
  · intro h
    have hmax := h ⟨leadingDigest (tupleText k) + leadingDigest (tupleText k') + 1, Nat.succ_pos _⟩
    rwa [HashPartitioner.textTarget, HashPartitioner.textTarget, Nat.mod_eq_of_lt (by dsimp; omega),
      Nat.mod_eq_of_lt (by dsimp; omega)] at hmax
  · exact fun h p => textTarget_congr p h

/-- Keys have a common target for any number of partitions when both print and their hashes
agree. -/
lemma partitionFor_meet_iff :
    (∀ p : HashPartitioner, ∃ t, p.partitionFor k = .ok t ∧ p.partitionFor k' = .ok t) ↔
      (k.all Value.prints = true ∧ k'.all Value.prints = true) ∧
        leadingDigest (tupleText k) = leadingDigest (tupleText k') := by
  rw [← textTarget_eq_iff]
  simp only [HashPartitioner.partitionFor_eq_ok]
  constructor
  · intro h
    obtain ⟨t, ⟨hk, -⟩, hk', -⟩ := h ⟨1, le_rfl⟩
    refine ⟨⟨hk, hk'⟩, fun p => ?_⟩
    obtain ⟨t, ⟨-, ht⟩, -, ht'⟩ := h p
    exact ht.symm.trans ht'
  · rintro ⟨⟨hk, hk'⟩, h⟩ p
    exact ⟨p.textTarget k, ⟨hk, rfl⟩, hk', h p⟩

/-- Keys that a table identifies meet in one partition, for any number of partitions, exactly
when they have a text and print the same position by position. -/
theorem identified_partitionFor_iff (hF : FloatTexts F) (hk : ∀ v ∈ k, v.IsScalar)
    (hmd5 : leadingDigest (tupleText k) = leadingDigest (tupleText k') →
      utf8Bytes (tupleText k) = utf8Bytes (tupleText k')) (h : Identified k k') :
    (∀ p : HashPartitioner, ∃ t, p.partitionFor k = .ok t ∧ p.partitionFor k' = .ok t) ↔
      (k.all Value.prints = true ∧ k'.all Value.prints = true) ∧
        List.Forall₂ Value.PrintsLike k k' := by
  rw [partitionFor_meet_iff, ← tupleText_eq_iff hF hk h]
  refine and_congr_right fun _ => ⟨fun hhash => utf8Bytes_injective (hmd5 hhash), fun htext => ?_⟩
  rw [htext]

end Keys

section Examples

/-- With five partitions the keys `(1,)` and `(1.0,)` are dealt to different ones. -/
lemma one_parts : HashPartitioner.textTarget ⟨5, by decide⟩ [(.int 1 : Value ℚ)] ≠
    HashPartitioner.textTarget ⟨5, by decide⟩ [(.float 1 : Value ℚ)] := by decide +kernel

lemma one_identified : Identified [(.int 1 : Value ℚ)] [.float 1] :=
  .cons (Or.inr (by decide)) .nil

/-- The keys are identified and of different types. -/
theorem identified_partitionFor_iff_one :
    (∀ p : HashPartitioner, ∃ t, p.partitionFor [(.int 1 : Value ℚ)] = .ok t ∧
      p.partitionFor [(.float 1 : Value ℚ)] = .ok t) ↔
      (List.all [(.int 1 : Value ℚ)] Value.prints = true ∧
        List.all [(.float 1 : Value ℚ)] Value.prints = true) ∧
      List.Forall₂ Value.PrintsLike [(.int 1 : Value ℚ)] [.float 1] :=
  identified_partitionFor_iff floatTexts_exact (List.forall_mem_singleton.mpr trivial)
    (fun h => absurd (textTarget_congr ⟨5, by decide⟩ h) one_parts) one_identified

/-- Rows with equal keys are dealt to different partitions. -/
theorem equal_keys_part : ¬ ∀ (p : HashPartitioner) (k k' : List (Value ℚ)),
    (∀ v ∈ k, v.IsScalar) → (∀ v ∈ k', v.IsScalar) →
    (leadingDigest (tupleText k) = leadingDigest (tupleText k') →
      utf8Bytes (tupleText k) = utf8Bytes (tupleText k')) →
    Identified k k' → ∃ t, p.partitionFor k = .ok t ∧ p.partitionFor k' = .ok t := by
  intro hall
  obtain ⟨t, ht, ht'⟩ := hall ⟨5, by decide⟩ [.int 1] [.float 1]
    (List.forall_mem_singleton.mpr trivial) (List.forall_mem_singleton.mpr trivial)
    (fun h => absurd (textTarget_congr ⟨5, by decide⟩ h) one_parts) one_identified
  exact one_parts ((HashPartitioner.partitionFor_eq_ok.mp ht).2.symm.trans
    (HashPartitioner.partitionFor_eq_ok.mp ht').2)

end Examples

end MiniSpark
