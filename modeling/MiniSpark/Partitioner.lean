import MiniSpark.Md5
import MiniSpark.Repr

/-!
# Partitioners

`HashPartitioner` reduces the leading eight bytes of the MD5 digest of the
key's text; `RangePartitioner` finds a key among sorted boundaries by
bisection. The checks of the constructors are fields. Hashing raises for a key
that does not print.
-/
namespace MiniSpark

variable {F : Type} [PyRuntime F]

/-- `text.encode("utf-8")`. -/
def utf8Bytes (s : String) : List ℕ := (s.toList.flatMap String.utf8EncodeChar).map UInt8.toNat

/-- `int.from_bytes(bytes, byteorder="big")`. -/
def fromBytesBig (bytes : List ℕ) : ℕ := bytes.foldl (fun acc b => 256 * acc + b) 0

/-- Leading eight digest bytes of a text. -/
def leadingDigest (s : String) : ℕ := fromBytesBig ((Md5.digest (utf8Bytes s)).take 8)

/-- `_stable_hash`. -/
def stableHash (key : List (Value F)) : Py ℕ := do
  let text ← reprTuple key
  pure (leadingDigest text)

structure HashPartitioner where
  numPartitions : ℕ
  one_le : 1 ≤ numPartitions

namespace HashPartitioner

/-- `HashPartitioner(num_partitions)`. -/
def make (numPartitions : ℕ) : Py HashPartitioner :=
  if h : 1 ≤ numPartitions then .ok ⟨numPartitions, h⟩
  else .error (.valueError ("num_partitions must be >= 1, got " ++ toString numPartitions))

/-- `partition_for`. -/
def partitionFor (p : HashPartitioner) (key : List (Value F)) : Py ℕ := do
  let hash ← stableHash key
  pure (hash % p.numPartitions)

/-- The target of a key that prints. -/
def textTarget (p : HashPartitioner) (key : List (Value F)) : ℕ :=
  leadingDigest (tupleText key) % p.numPartitions

theorem textTarget_lt (p : HashPartitioner) (key : List (Value F)) :
    p.textTarget key < p.numPartitions := Nat.mod_lt _ p.one_le

/-- A key has a target when it prints. -/
theorem partitionFor_eq (p : HashPartitioner) (key : List (Value F)) : p.partitionFor key =
    if key.all Value.prints then .ok (p.textTarget key) else .error (digitLimitError F) := by
  rw [partitionFor, stableHash, reprTuple_eq]
  cases key.all Value.prints <;> rfl

theorem partitionFor_eq_ok {p : HashPartitioner} {key : List (Value F)} {t : ℕ} :
    p.partitionFor key = .ok t ↔ key.all Value.prints = true ∧ t = p.textTarget key := by
  rw [partitionFor_eq]
  cases key.all Value.prints <;> simp [eq_comm]

theorem partitionFor_of_prints {p : HashPartitioner} {key : List (Value F)}
    (h : key.all Value.prints = true) : p.partitionFor key = .ok (p.textTarget key) :=
  partitionFor_eq_ok.mpr ⟨h, rfl⟩

theorem make_eq_ok {n : ℕ} {p : HashPartitioner} : make n = .ok p ↔ p.numPartitions = n := by
  unfold make
  by_cases h : 1 ≤ n
  · rw [dif_pos h, Except.ok.injEq]
    constructor
    · rintro rfl
      rfl
    · rintro rfl
      rfl
  · rw [dif_neg h]
    constructor
    · intro he
      cases he
    · intro he
      exact absurd (he ▸ p.one_le) h

end HashPartitioner

/-- The loop of `bisect_right`: search the slice from `lo` up to `hi`. The first
argument bounds the number of halvings by the width of the slice. -/
def bisectRightLoop (a : List (Value F)) (x : Value F) : ℕ → ℕ → ℕ → Py ℕ
  | 0, lo, _ => .ok lo
  | fuel + 1, lo, hi =>
      if lo < hi then
        let mid := (lo + hi) / 2
        match a[mid]? with
        | none => .error .indexError
        | some b => do
            let less ← x.lt b
            if less then bisectRightLoop a x fuel lo mid
            else bisectRightLoop a x fuel (mid + 1) hi
      else .ok lo

/-- `bisect_right(a, x)`. -/
def bisectRight (a : List (Value F)) (x : Value F) : Py ℕ := bisectRightLoop a x a.length 0 a.length

structure RangePartitioner (F : Type) where
  numPartitions : ℕ
  one_le : 1 ≤ numPartitions
  boundaries : List (Value F)
  boundaries_length : boundaries.length = numPartitions - 1

namespace RangePartitioner

/-- `RangePartitioner(num_partitions, boundaries)`. -/
def make (numPartitions : ℕ) (boundaries : List (Value F)) : Py (RangePartitioner F) :=
  if h : 1 ≤ numPartitions then
    if hb : boundaries.length = numPartitions - 1 then .ok ⟨numPartitions, h, boundaries, hb⟩
    else .error (.valueError ("RangePartitioner needs exactly " ++ toString (numPartitions - 1) ++
      " boundaries for " ++ toString numPartitions ++ " partitions, got " ++
      toString boundaries.length))
  else .error (.valueError ("num_partitions must be >= 1, got " ++ toString numPartitions))

/-- `partition_for`. -/
def partitionFor (p : RangePartitioner F) (key : Value F) : Py ℕ := bisectRight p.boundaries key

end RangePartitioner

/-- A bisection that returns stays in its slice. -/
theorem bisectRightLoop_le {a : List (Value F)} {x : Value F} {fuel lo hi i : ℕ} (hlh : lo ≤ hi)
    (h : bisectRightLoop a x fuel lo hi = .ok i) : lo ≤ i ∧ i ≤ hi := by
  induction fuel generalizing lo hi with
  | zero => cases h; exact ⟨le_rfl, hlh⟩
  | succ fuel ih =>
      simp only [bisectRightLoop] at h
      split at h
      · next hlt =>
          split at h
          · cases h
          · obtain ⟨less, -, h⟩ := ExceptList.bind_eq_ok.mp h
            cases less with
            | true =>
                have := ih (by omega) h
                omega
            | false =>
                have := ih (by omega) h
                omega
      · cases h; exact ⟨le_rfl, hlh⟩

theorem bisectRight_le {a : List (Value F)} {x : Value F} {i : ℕ} (h : bisectRight a x = .ok i) :
    i ≤ a.length := (bisectRightLoop_le (Nat.zero_le _) h).2

/-- Every target is a partition number. -/
theorem RangePartitioner.partitionFor_lt (p : RangePartitioner F) {key : Value F} {i : ℕ}
    (h : p.partitionFor key = .ok i) : i < p.numPartitions := by
  have hi := bisectRight_le h
  have := p.one_le
  have := p.boundaries_length
  omega

example : HashPartitioner.textTarget ⟨4, by decide⟩ [(.int 1 : Value ℚ)] = 1 := by decide +kernel

end MiniSpark
