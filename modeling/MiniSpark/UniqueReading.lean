import Mathlib.Data.List.Basic

/-!
# Texts that show where they end

Texts written one after the other can be told apart when each shows its own end, or when what
follows begins with a symbol that no text contains.
-/
namespace UniqueReading

variable {α β : Type} {stop : α → Prop}

/-- Nothing, or something that begins with a symbol that ends texts. -/
def Follows (stop : α → Prop) : List α → Prop
  | [] => True
  | c :: _ => stop c

/-- No symbol of the text ends texts. -/
def Plain (stop : α → Prop) (l : List α) : Prop := ∀ c ∈ l, ¬ stop c

/-- A plain text ends where a stop follows. -/
theorem append_inj_of_plain {l m s t : List α} (hl : Plain stop l) (hm : Plain stop m)
    (hs : Follows stop s) (ht : Follows stop t) (h : l ++ s = m ++ t) : l = m ∧ s = t := by
  induction l generalizing m with
  | nil =>
      cases m with
      | nil => exact ⟨rfl, h⟩
      | cons d m =>
          obtain rfl : s = d :: (m ++ t) := h
          exact absurd hs (hm d List.mem_cons_self)
  | cons c l ih =>
      cases m with
      | nil =>
          obtain rfl : c :: (l ++ s) = t := h
          exact absurd ht (hl c List.mem_cons_self)
      | cons d m =>
          obtain ⟨rfl, hrest⟩ := List.cons_eq_cons.mp h
          obtain ⟨rfl, hst⟩ := ih (fun x hx => hl x (List.mem_cons_of_mem _ hx))
            (fun x hx => hm x (List.mem_cons_of_mem _ hx)) hrest
          exact ⟨rfl, hst⟩

/-- Equal streams begin with the same value. -/
def PrefixFree (code : β → List α) : Prop :=
  ∀ a b s t, code a ++ s = code b ++ t → a = b ∧ s = t

/-- Codes in a row end before a symbol with which no code begins. -/
theorem PrefixFree.flatMap {code : β → List α} (hcode : PrefixFree code) {close : α}
    (hclose : ∀ a s t, code a ++ s ≠ close :: t) {as bs : List β} {s t : List α}
    (h : as.flatMap code ++ close :: s = bs.flatMap code ++ close :: t) : as = bs ∧ s = t := by
  induction as generalizing bs with
  | nil =>
      cases bs with
      | nil => exact ⟨rfl, (List.cons_eq_cons.mp h).2⟩
      | cons b bs =>
          rw [List.flatMap_cons, List.append_assoc] at h
          exact absurd h.symm (hclose b _ _)
  | cons a as ih =>
      cases bs with
      | nil =>
          rw [List.flatMap_cons, List.append_assoc] at h
          exact absurd h (hclose a _ _)
      | cons b bs =>
          rw [List.flatMap_cons, List.flatMap_cons, List.append_assoc, List.append_assoc] at h
          obtain ⟨rfl, hrest⟩ := hcode a b _ _ h
          obtain ⟨rfl, hst⟩ := ih hrest
          exact ⟨rfl, hst⟩

/-- Texts joined by a separator that begins with a stop are equal one by one, when those that
differ are plain. -/
theorem intercalate_inj {c : α} {sep : List α} (hc : stop c) {xs ys : List (List α)}
    (hxy : List.Forall₂ (fun x y => x = y ∨ Plain stop x ∧ Plain stop y) xs ys) {s t : List α}
    (hs : Follows stop s) (ht : Follows stop t)
    (h : (c :: sep).intercalate xs ++ s = (c :: sep).intercalate ys ++ t) : xs = ys ∧ s = t := by
  have hfirst : ∀ {x y u v : List α}, (x = y ∨ Plain stop x ∧ Plain stop y) →
      Follows stop u → Follows stop v → x ++ u = y ++ v → x = y ∧ u = v := by
    rintro x y u v (rfl | ⟨hx, hy⟩) hu hv huv
    · exact ⟨rfl, List.append_cancel_left huv⟩
    · exact append_inj_of_plain hx hy hu hv huv
  induction hxy with
  | nil => exact ⟨rfl, h⟩
  | @cons x y xs ys hhead htail ih =>
      cases htail with
      | nil =>
          rw [List.intercalate_singleton, List.intercalate_singleton] at h
          obtain ⟨rfl, hst⟩ := hfirst hhead hs ht h
          exact ⟨rfl, hst⟩
      | cons hnext hrest =>
          rw [List.intercalate_cons_cons, List.intercalate_cons_cons, List.append_assoc,
            List.append_assoc, List.append_assoc, List.append_assoc, List.cons_append,
            List.cons_append] at h
          obtain ⟨rfl, hsep⟩ := hfirst hhead (show Follows stop (c :: _) from hc)
            (show Follows stop (c :: _) from hc) h
          obtain ⟨hxs, hst⟩ := ih (List.append_cancel_left (List.cons_eq_cons.mp hsep).2)
          exact ⟨by rw [hxs], hst⟩

end UniqueReading
