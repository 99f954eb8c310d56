import Mathlib.Data.List.Nodup
import Mathlib.Data.List.Perm.Basic

/-!
# Patching an association list

Some of the entries of a list are replaced by the entries of another one under the same keys.
Up to order the result is what was kept and what was patched in.
-/
namespace Patching

variable {κ α : Type} [DecidableEq κ]

def keys (entries : List (κ × List α)) : List κ := entries.map Prod.fst

/-- All elements of all entries. -/
def elements (entries : List (κ × List α)) : List α := entries.flatMap Prod.snd

/-- The entries under one of the keys. -/
def within (ks : List κ) (entries : List (κ × List α)) : List (κ × List α) :=
  entries.filter (fun p => p.1 ∈ ks)

/-- The other entries. -/
def outside (ks : List κ) (entries : List (κ × List α)) : List (κ × List α) :=
  entries.filter (fun p => p.1 ∉ ks)

/-- Every entry of `old`, or the one of `patch` under its key. -/
def patched (patch old : List (κ × List α)) : List α :=
  old.flatMap (fun p => (patch.lookup p.1).getD p.2)

lemma lookup_eq_none {patch : List (κ × List α)} {k : κ} (h : k ∉ keys patch) :
    patch.lookup k = none := by
  rw [List.lookup_eq_none_iff]
  exact fun p hp => bne_iff_ne.mpr (fun he => h (he ▸ List.mem_map_of_mem hp))

lemma lookup_eq_some {patch : List (κ × List α)} {k : κ} (h : k ∈ keys patch) :
    ∃ v pre post, patch.lookup k = some v ∧ patch = pre ++ (k, v) :: post := by
  have hsome : (patch.lookup k).isSome = true := by
    rw [List.lookup_isSome_iff]
    obtain ⟨p, hp, rfl⟩ := List.mem_map.mp h
    exact ⟨p, hp, beq_self_eq_true _⟩
  obtain ⟨v, hv⟩ := Option.isSome_iff_exists.mp hsome
  obtain ⟨pre, post, hpatch, -⟩ := List.lookup_eq_some_iff.mp hv
  exact ⟨v, pre, post, hv, hpatch⟩

/-- The entries under two sets of keys without a key in common. -/
theorem elements_within_outside (ks : List κ) (entries : List (κ × List α)) :
    (elements (within ks entries) ++ elements (outside ks entries)).Perm (elements entries) := by
  unfold elements within outside
  rw [← List.flatMap_append]
  refine List.Perm.flatMap_right _ ?_
  have hsplit := List.filter_append_perm (fun p : κ × List α => decide (p.1 ∈ ks)) entries
  simpa using hsplit

/-- One more key brings in its one entry. -/
lemma elements_within_cons {patch : List (κ × List α)} (hpatch : (keys patch).Nodup) {k : κ}
    {v : List α} {pre post : List (κ × List α)} (he : patch = pre ++ (k, v) :: post) {ks : List κ}
    (hk : k ∉ ks) :
    (elements (within (k :: ks) patch)).Perm (v ++ elements (within ks patch)) := by
  subst he
  have hnodup : (keys pre ++ k :: keys post).Nodup := by simpa [keys] using hpatch
  have hother : ∀ part : List (κ × List α), k ∉ keys part →
      within (k :: ks) part = within ks part := by
    intro part hpart
    refine List.filter_congr (fun p hp => ?_)
    have hne : p.1 ≠ k := fun he => hpart (he ▸ List.mem_map_of_mem hp)
    simp [hne]
  have hpre : k ∉ keys pre := fun h =>
    (List.nodup_append.mp hnodup).2.2 k h k List.mem_cons_self rfl
  have hpost : k ∉ keys post := (List.nodup_cons.mp (List.nodup_append.mp hnodup).2.1).1
  have hin : within (k :: ks) (pre ++ (k, v) :: post) =
      within ks pre ++ (k, v) :: within ks post := by
    rw [within, List.filter_append, List.filter_cons_of_pos (by simp)]
    exact congrArg₂ (· ++ (k, v) :: ·) (hother pre hpre) (hother post hpost)
  have hout : within ks (pre ++ (k, v) :: post) = within ks pre ++ within ks post := by
    rw [within, List.filter_append, List.filter_cons_of_neg (by simpa using hk)]
    rfl
  rw [hin, hout, elements, elements, List.flatMap_append, List.flatMap_cons, List.flatMap_append]
  exact List.perm_append_comm_assoc _ _ _

/-- What was not patched, and what was patched in. -/
theorem patched_perm {patch old : List (κ × List α)} (hpatch : (keys patch).Nodup)
    (hold : (keys old).Nodup) :
    (patched patch old).Perm
      (elements (outside (keys patch) old) ++ elements (within (keys old) patch)) := by
  induction old with
  | nil =>
      simp [patched, elements, outside, within, keys]
  | cons p old ih =>
      obtain ⟨k, v⟩ := p
      obtain ⟨hk, hnodup⟩ := List.nodup_cons.mp hold
      have hrest := ih hnodup
      by_cases hmem : k ∈ keys patch
      · obtain ⟨w, pre, post, hlookup, he⟩ := lookup_eq_some hmem
        have hin := elements_within_cons hpatch he hk
        have hout : outside (keys patch) ((k, v) :: old) = outside (keys patch) old :=
          List.filter_cons_of_neg (by simpa using hmem)
        have hhead : patched patch ((k, v) :: old) = w ++ patched patch old := by
          simp [patched, hlookup]
        rw [hhead, hout]
        exact (hrest.append_left w).trans
          ((List.perm_append_comm_assoc _ _ _).trans (hin.symm.append_left _))
      · have hin : within (keys ((k, v) :: old)) patch = within (keys old) patch := by
          refine List.filter_congr (fun p hp => ?_)
          have hne : p.1 ≠ k := fun he => hmem (he ▸ List.mem_map_of_mem hp)
          rw [decide_eq_decide, keys, List.map_cons, List.mem_cons]
          exact or_iff_right hne
        have hout : outside (keys patch) ((k, v) :: old) = (k, v) :: outside (keys patch) old :=
          List.filter_cons_of_pos (by simpa using hmem)
        have hhead : patched patch ((k, v) :: old) = v ++ patched patch old := by
          simp [patched, lookup_eq_none hmem]
        rw [hhead, hout, hin, elements, List.flatMap_cons, List.append_assoc]
        exact hrest.append_left v

end Patching
