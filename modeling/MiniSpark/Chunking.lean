import Mathlib.Data.List.Basic

/-!
# Consecutive chunks

A list is cut into at most `n` chunks of one size, the last of them shorter. Empty chunks at the
end are left out, unless there is nothing to cut.
-/
namespace Chunking

/-- A chunk by its number, its first position and the position after its last. -/
structure Chunk where
  index : ℕ
  start : ℕ
  stop : ℕ
  deriving DecidableEq, Repr

/-- The size of a chunk: the quotient, rounded up. -/
def size (n count : ℕ) : ℕ := (count + n - 1) / n

def chunkAt (n count i : ℕ) : Chunk := ⟨i, i * size n count, min ((i + 1) * size n count) count⟩

def chunks (n count : ℕ) : List Chunk :=
  ((List.range n).map (chunkAt n count)).filter (fun c => ¬ (c.stop ≤ c.start ∧ 0 < count))

/-- The elements of a chunk. -/
def slice {α : Type} (xs : List α) (c : Chunk) : List α := (xs.drop c.start).take (c.stop - c.start)

variable {α : Type}

lemma slice_eq_nil (xs : List α) {c : Chunk} (h : c.stop ≤ c.start) : slice xs c = [] := by
  rw [slice, Nat.sub_eq_zero_of_le h, List.take_zero]

lemma chunk_bounds {n count : ℕ} {c : Chunk} (h : c ∈ chunks n count) :
    c.start ≤ c.stop ∧ c.stop ≤ count := by
  obtain ⟨hmem, hkeep⟩ := List.mem_filter.mp h
  obtain ⟨i, -, rfl⟩ := List.mem_map.mp hmem
  refine ⟨?_, Nat.min_le_right _ _⟩
  by_cases hcount : 0 < count
  · have hkeep' : ¬ (chunkAt n count i).stop ≤ (chunkAt n count i).start := by
      simpa [hcount] using hkeep
    omega
  · obtain rfl : count = 0 := by omega
    have hsize : size n 0 = 0 := by
      unfold size
      cases n with
      | zero => rfl
      | succ n => exact Nat.div_eq_of_lt (by omega)
    simp [chunkAt, hsize]

lemma size_covers {n : ℕ} (hn : 0 < n) (count : ℕ) : count ≤ n * size n count := by
  have hdiv := Nat.div_add_mod (count + n - 1) n
  have hmod := Nat.mod_lt (count + n - 1) hn
  unfold size
  omega

/-- The first chunks are the first elements. -/
lemma flatMap_slice_range (xs : List α) (n k : ℕ) :
    (List.range k).flatMap (fun i => slice xs (chunkAt n xs.length i)) =
      xs.take (k * size n xs.length) := by
  induction k with
  | zero => simp
  | succ k ih =>
      have hslice : slice xs (chunkAt n xs.length k) =
          (xs.drop (k * size n xs.length)).take (size n xs.length) := by
        rw [slice, chunkAt, List.take_eq_take_iff, List.length_drop, Nat.succ_mul]
        dsimp only
        omega
      rw [List.range_succ, List.flatMap_append, ih, List.flatMap_singleton, hslice, Nat.succ_mul,
        List.take_add]

/-- The chunks make up the list. -/
theorem flatMap_slice (xs : List α) {n : ℕ} (hn : 0 < n) :
    (chunks n xs.length).flatMap (slice xs) = xs := by
  have hfilter : ∀ cs : List Chunk, (cs.filter (fun c => ¬ (c.stop ≤ c.start ∧ 0 < xs.length))).flatMap
      (slice xs) = cs.flatMap (slice xs) := by
    intro cs
    induction cs with
    | nil => rfl
    | cons c cs ih =>
        rw [List.filter_cons, List.flatMap_cons, ← ih]
        split
        · rw [List.flatMap_cons]
        · next h =>
            have hempty : c.stop ≤ c.start := by
              by_contra hne
              exact h (by simp [hne])
            rw [slice_eq_nil xs hempty, List.nil_append]
  rw [chunks, hfilter, List.flatMap_map, flatMap_slice_range, List.take_of_length_le]
  exact size_covers hn xs.length

/-- What is done with each chunk adds up to what is done with the list. -/
theorem flatMap_chunks {β : Type} (xs : List α) {n : ℕ} (hn : 0 < n) (f : α → List β) :
    (chunks n xs.length).flatMap (fun c => (slice xs c).flatMap f) = xs.flatMap f := by
  rw [← List.flatMap_assoc, flatMap_slice xs hn]

section Covers

/-- The chunks run from `a` to `b` one after the other, without gap or overlap. -/
def Tiles : ℕ → ℕ → List Chunk → Prop
  | a, b, [] => a = b
  | a, b, c :: cs => c.start = a ∧ c.start ≤ c.stop ∧ Tiles c.stop b cs

/-- Whether a position is in the chunk. -/
def Chunk.holds (c : Chunk) (i : ℕ) : Bool := decide (c.start ≤ i ∧ i < c.stop)

lemma Tiles.le {a b : ℕ} {cs : List Chunk} (h : Tiles a b cs) : a ≤ b := by
  induction cs generalizing a with
  | nil => exact Nat.le_of_eq h
  | cons c cs ih =>
      obtain ⟨rfl, hle, hrest⟩ := h
      exact Nat.le_trans hle (ih hrest)

lemma Tiles.append_singleton {a b : ℕ} {cs : List Chunk} {c : Chunk} (h : Tiles a b cs)
    (hstart : c.start = b) (hle : c.start ≤ c.stop) : Tiles a c.stop (cs ++ [c]) := by
  induction cs generalizing a with
  | nil =>
      obtain rfl : a = b := h
      exact ⟨hstart, hle, rfl⟩
  | cons d cs ih =>
      obtain ⟨rfl, hd, hrest⟩ := h
      exact ⟨rfl, hd, ih hrest⟩

/-- Chunks before the first position hold nothing. -/
lemma Tiles.countP_before {a b i : ℕ} {cs : List Chunk} (h : Tiles a b cs) (hi : i < a) :
    cs.countP (fun c => c.holds i) = 0 := by
  induction cs generalizing a with
  | nil => rfl
  | cons c cs ih =>
      obtain ⟨rfl, hle, hrest⟩ := h
      have hout : c.holds i = false := by
        simp only [Chunk.holds, decide_eq_false_iff_not]
        omega
      rw [List.countP_cons, ih hrest (by omega), hout]
      rfl

/-- Every position from the first to the last is in exactly one chunk. -/
theorem Tiles.countP_eq_one {a b i : ℕ} {cs : List Chunk} (h : Tiles a b cs) (ha : a ≤ i)
    (hb : i < b) : cs.countP (fun c => c.holds i) = 1 := by
  induction cs generalizing a with
  | nil =>
      obtain rfl : a = b := h
      omega
  | cons c cs ih =>
      obtain ⟨rfl, hle, hrest⟩ := h
      rw [List.countP_cons]
      by_cases hi : i < c.stop
      · have hin : c.holds i = true := decide_eq_true ⟨ha, hi⟩
        rw [hrest.countP_before hi, hin]
        rfl
      · have hout : c.holds i = false := by
          simp only [Chunk.holds, decide_eq_false_iff_not]
          omega
        rw [ih hrest (by omega), hout]
        rfl

/-- The chunks are all of `count` positions, numbered by their places, and none is empty unless
there are no positions. -/
structure ExactlyCovers (count : ℕ) (cs : List Chunk) : Prop where
  tiles : Tiles 0 count cs
  numbered : cs.map Chunk.index = List.range cs.length
  filled : 0 < count → ∀ c ∈ cs, c.start < c.stop
  one_le : 1 ≤ cs.length

theorem ExactlyCovers.countP_eq_one {count i : ℕ} {cs : List Chunk} (h : ExactlyCovers count cs)
    (hi : i < count) : cs.countP (fun c => c.holds i) = 1 :=
  h.tiles.countP_eq_one i.zero_le hi

/-- The size is the ceiling `-(-count // n)`. -/
theorem size_eq_ceil {n : ℕ} (hn : 0 < n) (count : ℕ) :
    (size n count : Int) = -(-(count : Int) / (n : Int)) := by
  have hdiv := Nat.div_add_mod (count + n - 1) n
  have hmod := Nat.mod_lt (count + n - 1) hn
  have hfloor : -(count : Int) / (n : Int) = -(size n count : Int) := by
    rw [Int.ediv_eq_iff_of_pos (by omega), Int.neg_mul]
    have hmul : (size n count : Int) * n = (n * size n count : ℕ) := by
      rw [Nat.mul_comm, Int.natCast_mul]
    rw [hmul]
    rw [← size] at hdiv
    omega
  rw [hfloor, Int.neg_neg]

lemma size_pos {n count : ℕ} (hn : 0 < n) (hcount : 0 < count) : 0 < size n count := by
  by_contra hzero
  have hcovers := size_covers hn count
  rw [Nat.eq_zero_of_not_pos hzero, Nat.mul_zero] at hcovers
  omega

/-- How many chunks are not empty. -/
def filledCount (n count : ℕ) : ℕ := (count + size n count - 1) / size n count

lemma lt_filledCount {n count i : ℕ} (hn : 0 < n) (hcount : 0 < count) :
    i < filledCount n count ↔ i * size n count < count := by
  have hsize := size_pos hn hcount
  rw [filledCount, Nat.lt_iff_add_one_le, Nat.le_div_iff_mul_le hsize, Nat.succ_mul]
  omega

lemma filter_lt_range {m n : ℕ} (h : m ≤ n) :
    (List.range n).filter (fun i => decide (i < m)) = List.range m := by
  obtain ⟨d, rfl⟩ := Nat.exists_eq_add_of_le h
  have hfirst : (List.range m).filter (fun i => decide (i < m)) = List.range m :=
    List.filter_eq_self.mpr (fun i hi => by simpa using hi)
  have hrest : ((List.range d).map (m + ·)).filter (fun i => decide (i < m)) = [] := by
    rw [List.filter_eq_nil_iff]
    intro i hi
    obtain ⟨j, -, rfl⟩ := List.mem_map.mp hi
    simp
  rw [List.range_add, List.filter_append, hfirst, hrest, List.append_nil]

/-- Only chunks at the end are left out. -/
lemma chunks_eq_range {n count : ℕ} (hn : 0 < n) (hcount : 0 < count) :
    chunks n count = (List.range (filledCount n count)).map (chunkAt n count) := by
  have hle : filledCount n count ≤ n := by
    by_contra hlt
    have hmul := (lt_filledCount hn hcount).mp (Nat.lt_of_not_le hlt)
    have hcovers := size_covers hn count
    omega
  have hkeep : ∀ i, (¬ ((chunkAt n count i).stop ≤ (chunkAt n count i).start ∧ 0 < count)) ↔
      i < filledCount n count := by
    intro i
    have hsize := size_pos hn hcount
    rw [lt_filledCount hn hcount]
    simp only [chunkAt, Nat.succ_mul]
    omega
  rw [chunks, List.filter_map]
  congr 1
  rw [← filter_lt_range hle]
  exact List.filter_congr (fun i _ => decide_eq_decide.mpr (hkeep i))

lemma tiles_range {n count : ℕ} (hn : 0 < n) (hcount : 0 < count) {k : ℕ}
    (hk : k ≤ filledCount n count) :
    Tiles 0 (min (k * size n count) count) ((List.range k).map (chunkAt n count)) := by
  induction k with
  | zero => simp [Tiles]
  | succ k ih =>
      have hin := (lt_filledCount hn hcount).mp (Nat.lt_of_succ_le hk)
      rw [List.range_succ, List.map_append]
      have hstart : (chunkAt n count k).start = min (k * size n count) count := by
        simp only [chunkAt]
        omega
      have hle : (chunkAt n count k).start ≤ (chunkAt n count k).stop := by
        simp only [chunkAt, Nat.succ_mul]
        omega
      exact (ih (by omega)).append_singleton hstart hle

/-- The kept chunks cover the positions exactly. -/
theorem chunks_exactlyCovers {n count : ℕ} (hn : 0 < n) (hzero : count = 0 → n = 1) :
    ExactlyCovers count (chunks n count) ∧ (chunks n count).length ≤ n := by
  cases Nat.eq_zero_or_pos count with
  | inl hnone =>
      obtain rfl := hzero hnone
      obtain rfl := hnone
      exact ⟨⟨⟨rfl, Nat.le_refl 0, rfl⟩, rfl, fun h => absurd h (Nat.lt_irrefl 0), Nat.le_refl 1⟩,
        Nat.le_refl 1⟩
  | inr hcount =>
      have hlast : count ≤ filledCount n count * size n count := by
        by_contra hlt
        exact Nat.lt_irrefl _ ((lt_filledCount hn hcount).mpr (Nat.lt_of_not_le hlt))
      have hfirst : 0 < filledCount n count := (lt_filledCount hn hcount).mpr (by omega)
      have htiles := tiles_range hn hcount (Nat.le_refl (filledCount n count))
      rw [Nat.min_eq_right hlast] at htiles
      refine ⟨⟨?_, ?_, ?_, ?_⟩, ?_⟩
      · rwa [chunks_eq_range hn hcount]
      · rw [chunks_eq_range hn hcount, List.map_map, List.length_map, List.length_range]
        exact List.map_id _
      · intro _ c hc
        rw [chunks_eq_range hn hcount] at hc
        obtain ⟨i, hi, rfl⟩ := List.mem_map.mp hc
        have hin := (lt_filledCount hn hcount).mp (List.mem_range.mp hi)
        have hsize := size_pos hn hcount
        simp only [chunkAt, Nat.succ_mul]
        omega
      · rw [chunks_eq_range hn hcount, List.length_map, List.length_range]
        exact hfirst
      · exact Nat.le_trans (List.length_filter_le _ _) (by simp)

end Covers

end Chunking
