import Mathlib.Data.List.AList
import Mathlib.Data.List.Induction
import Mathlib.Data.List.Sort

/-! # Maps filled from a list

A map that takes up the entries of a list one after the other keeps the last entry of each key. -/

namespace Thicket.LastEntry

variable {κ β : Type*}

/-- **An entry is the last one of its key.** -/
def IsLast (l : List (κ × β)) (k : κ) (v : β) : Prop :=
  ∃ before behind, l = before ++ (k, v) :: behind ∧ ∀ y ∈ behind, y.1 ≠ k

/-- It is an entry. -/
theorem IsLast.mem {l : List (κ × β)} {k : κ} {v : β} (h : IsLast l k v) : (k, v) ∈ l := by
  obtain ⟨before, behind, rfl, -⟩ := h
  exact List.mem_append_right before List.mem_cons_self

/-- One more entry. -/
theorem isLast_concat {l : List (κ × β)} {x : κ × β} {k : κ} {v : β} :
    IsLast (l ++ [x]) k v ↔ (k, v) = x ∨ k ≠ x.1 ∧ IsLast l k v := by
  constructor
  · rintro ⟨before, behind, heq, hlast⟩
    -- the entry is the new one, or nothing behind it was its last
    obtain rfl | ⟨front, y, rfl⟩ := List.eq_nil_or_concat behind
    · have hx := List.append_inj_right' heq rfl
      exact .inl (List.head_eq_of_cons_eq hx).symm
    · rw [List.concat_eq_append, ← List.cons_append, ← List.append_assoc] at heq
      obtain ⟨rfl, hx⟩ := List.append_inj' heq rfl
      obtain rfl := List.head_eq_of_cons_eq hx
      refine .inr ⟨(hlast x (by simp)).symm, before, front, rfl, fun y hy => hlast y ?_⟩
      simp [hy]
  · rintro (rfl | ⟨hne, before, behind, rfl, hlast⟩)
    · exact ⟨l, [], rfl, by simp⟩
    · refine ⟨before, behind ++ [x], by simp, fun y hy => ?_⟩
      obtain hy | hy := List.mem_append.mp hy
      · exact hlast y hy
      · rw [List.mem_singleton.mp hy]
        exact hne.symm

variable [DecidableEq κ]

/-- The map filled from a list. -/
def fill (l : List (κ × β)) : AList fun _ : κ => β := l.foldl (fun m x => m.insert x.1 x.2) ∅

/-- One more entry. -/
theorem fill_concat (l : List (κ × β)) (x : κ × β) : fill (l ++ [x]) = (fill l).insert x.1 x.2 := by
  rw [fill, List.foldl_append]
  rfl

/-- **The last entry of a key is found.** -/
theorem lookup_fill {l : List (κ × β)} {k : κ} {v : β} :
    (fill l).lookup k = some v ↔ IsLast l k v := by
  induction l using List.reverseRecOn with
  | nil => simp [fill, IsLast]
  | append_singleton l x ih =>
    obtain ⟨k', v'⟩ := x
    -- an insertion answers for its own key only
    rw [fill_concat, isLast_concat, ← ih, Prod.mk.injEq]
    by_cases hk : k = k'
    · subst hk
      rw [AList.lookup_insert]
      simp [eq_comm]
    · rw [AList.lookup_insert_ne hk]
      simp [hk]

/-- Nothing is filled from nothing. -/
theorem entries_fill_eq_nil {l : List (κ × β)} : (fill l).entries = [] ↔ l = [] := by
  obtain rfl | ⟨front, x, rfl⟩ := List.eq_nil_or_concat l
  · exact iff_of_true rfl rfl
  · rw [List.concat_eq_append, fill_concat, AList.entries_insert]
    simp

variable (le : κ → κ → Bool)

/-- The entries of a map, sorted by their keys. -/
def items (m : AList fun _ : κ => β) : List (κ × β) :=
  (m.entries.map fun s => (s.1, s.2)).insertionSort fun x y => le x.1 y.1

/-- They are what is found under a key. -/
theorem mem_items {m : AList fun _ : κ => β} {k : κ} {v : β} :
    (k, v) ∈ items le m ↔ m.lookup k = some v := by
  rw [items, List.mem_insertionSort, ← Option.mem_def, AList.mem_lookup_iff]
  simp

end Thicket.LastEntry
