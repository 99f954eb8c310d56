import MiniSpark.ExceptList

/-!
# Streams of self-delimiting records

An encoding that says where it ends may be written any number of times in a row: reading one
record after the other gives the records back. A record cut short cannot be read; whether a
reader takes the cut for the end of the stream is up to the encoding.
-/
namespace SelfDelimiting

variable {α β γ ε : Type}

/-- Why no record could be read. -/
inductive ReadError (ε : Type)
  | endOfFile
  | invalid (e : ε)

/-- `decode` takes one record off the front of a stream and looks no further. -/
structure Codec (α β ε : Type) where
  encode : α → List β
  decode : List β → Except (ReadError ε) (α × List β)
  decode_nil : decode [] = .error .endOfFile
  decode_encode : ∀ a rest, decode (encode a ++ rest) = .ok (a, rest)
  decode_append : ∀ {xs a rest}, decode xs = .ok (a, rest) →
    ∀ more, decode (xs ++ more) = .ok (a, rest ++ more)
  decode_shorter : ∀ {xs a rest}, decode xs = .ok (a, rest) → rest.length < xs.length

namespace Codec

/-- Records that are one symbol each, among symbols that are no record. -/
def atomic (pack : α → β) (unpack : β → Option α) (hunpack : ∀ a, unpack (pack a) = some a)
    (e : ε) : Codec α β ε where
  encode a := [pack a]
  decode
    | [] => .error .endOfFile
    | b :: rest =>
        match unpack b with
        | some a => .ok (a, rest)
        | none => .error (.invalid e)
  decode_nil := rfl
  decode_encode a rest := by simp [hunpack]
  decode_append := by
    intro xs a rest h more
    cases xs with
    | nil => cases h
    | cons b xs =>
        cases hb : unpack b with
        | none => simp [hb] at h
        | some a' => simpa [hb] using h
  decode_shorter := by
    intro xs a rest h
    cases xs with
    | nil => cases h
    | cons b xs =>
        cases hb : unpack b with
        | none => simp [hb] at h
        | some a' =>
            simp only [hb, Except.ok.injEq, Prod.mk.injEq] at h
            rw [← h.2, List.length_cons]
            exact Nat.lt_succ_self _

variable (c : Codec α β ε)

/-- Read records up to the end of the stream, handing each one to `f`. -/
def readEach (f : α → Except ε γ) (xs : List β) : Except ε (List γ) :=
  match _hrecord : c.decode xs with
  | .error .endOfFile => .ok []
  | .error (.invalid e) => .error e
  | .ok (a, rest) => do
      let b ← f a
      let bs ← readEach f rest
      pure (b :: bs)
termination_by xs.length
decreasing_by exact c.decode_shorter _hrecord

/-- The beginning of an encoded record, with at least one byte missing. -/
def Torn (a : α) (piece : List β) : Prop := ∃ missing, missing ≠ [] ∧ c.encode a = piece ++ missing

/-- A reader that meets the piece fails, other than by coming to the end of the stream. -/
def Spoils (piece : List β) : Prop := ∃ e, c.decode piece = .error (.invalid e)

variable {c} {f : α → Except ε γ}

lemma readEach_endOfFile {xs : List β} (h : c.decode xs = .error .endOfFile) :
    c.readEach f xs = .ok [] := by
  rw [readEach]
  split
  · rfl
  · next he => rw [h] at he; cases he
  · next he => rw [h] at he; cases he

lemma readEach_invalid {xs : List β} {e : ε} (h : c.decode xs = .error (.invalid e)) :
    c.readEach f xs = .error e := by
  rw [readEach]
  split
  · next he => rw [h] at he; cases he
  · next he => rw [h] at he; cases he; rfl
  · next he => rw [h] at he; cases he

lemma readEach_record {xs rest : List β} {a : α} (h : c.decode xs = .ok (a, rest)) :
    c.readEach f xs = (do let b ← f a; let bs ← c.readEach f rest; pure (b :: bs)) := by
  rw [readEach]
  split
  · next he => rw [h] at he; cases he
  · next he => rw [h] at he; cases he
  · next he => rw [h] at he; cases he; rfl

/-- No record is encoded by nothing. -/
lemma encode_ne_nil (a : α) : c.encode a ≠ [] := by
  intro h
  have hdecode := c.decode_encode a []
  rw [h, List.append_nil, c.decode_nil] at hdecode
  cases hdecode

@[simp] lemma readEach_nil : c.readEach f [] = .ok [] := readEach_endOfFile c.decode_nil

/-- Records written in a row are read one after the other. -/
theorem readEach_encode (as : List α) (tail : List β) :
    c.readEach f (as.flatMap c.encode ++ tail) =
      (do let bs ← as.mapM f; let cs ← c.readEach f tail; pure (bs ++ cs)) := by
  induction as with
  | nil =>
      show c.readEach f tail = _
      cases c.readEach f tail <;> rfl
  | cons a as ih =>
      rw [List.flatMap_cons, List.append_assoc, readEach_record (c.decode_encode a _), ih,
        List.mapM_cons]
      simp only [bind_assoc, pure_bind, List.cons_append]

/-- No record can be read from a piece of one. -/
lemma Torn.decode {a : α} {piece : List β} (h : c.Torn a piece) :
    c.decode piece = .error .endOfFile ∨ c.Spoils piece := by
  obtain ⟨missing, hmissing, hencode⟩ := h
  cases hdecode : c.decode piece with
  | error e =>
      cases e with
      | endOfFile => exact Or.inl rfl
      | invalid e => exact Or.inr ⟨e, hdecode⟩
  | ok r =>
      obtain ⟨b, rest⟩ := r
      have happend := c.decode_append hdecode missing
      have hwhole := c.decode_encode a []
      rw [List.append_nil, hencode, happend] at hwhole
      have hrest : rest ++ missing = [] := (Prod.mk.inj (Except.ok.inj hwhole)).2
      exact absurd (List.append_eq_nil_iff.mp hrest).2 hmissing

lemma Torn.readEach {a : α} {piece : List β} (h : c.Torn a piece) (hspoils : ¬ c.Spoils piece) :
    c.readEach f piece = .ok [] := readEach_endOfFile (h.decode.resolve_right hspoils)

end Codec

end SelfDelimiting
