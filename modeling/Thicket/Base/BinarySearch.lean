import Mathlib.Data.List.Sort
import Mathlib.Data.UInt
import Mathlib.Order.Basic

/-! # Binary search in a table

A table of entries in the order of their keys, searched with two 16-bit counters. In a table that
is strictly sorted and that the counters can index, the search finds an entry exactly when the table
has it. -/

namespace Thicket.BinarySearch

variable {κ α : Type*} [LinearOrder κ]

/-- The middle of two counters, in `int` and cut back to 16 bits. -/
def middle (lo hi : UInt16) : UInt16 := UInt16.ofNat ((lo.toNat + hi.toNat) / 2)

/-- The middle is in 16 bits. -/
theorem toNat_middle (lo hi : UInt16) : (middle lo hi).toNat = (lo.toNat + hi.toNat) / 2 := by
  have hlo := lo.toNat_lt
  have hhi := hi.toNat_lt
  rw [middle, UInt16.toNat_ofNat']
  omega

/-- The counter behind one that has another above it. -/
theorem toNat_add_one {mid hi : UInt16} (h : mid.toNat < hi.toNat) :
    (mid + 1).toNat = mid.toNat + 1 := by
  have hhi := hi.toNat_lt
  rw [UInt16.toNat_add, UInt16.toNat_one]
  omega

/-- **The search** between two counters. -/
def searchFrom (table : List (κ × α)) (key : κ) (lo hi : UInt16) : Option α :=
  if _h : lo < hi then
    let mid := middle lo hi
    match table[mid.toNat]? with
    | none => none
    | some (k, a) =>
        if k = key then some a
        else if k < key then searchFrom table key (mid + 1) hi
        else searchFrom table key lo mid
  else none
termination_by hi.toNat - lo.toNat
decreasing_by
  all_goals
    have hlt := UInt16.lt_iff_toNat_lt.mp _h
    have hmid := toNat_middle lo hi
  · have hnext := toNat_add_one (show (middle lo hi).toNat < hi.toNat by omega)
    omega
  · omega

/-- **The search** in a table. -/
def search (table : List (κ × α)) (key : κ) : Option α :=
  searchFrom table key 0 (UInt16.ofNat table.length)

/-- The keys go up. -/
def Sorted (table : List (κ × α)) : Prop := table.Pairwise fun a b => a.1 < b.1

instance (table : List (κ × α)) : Decidable (Sorted table) :=
  inferInstanceAs (Decidable (List.Pairwise _ table))

variable {table : List (κ × α)} {key : κ}

/-- In a sorted table the places are in the order of the keys. -/
theorem Sorted.lt_iff (h : Sorted table) {i j : Nat} {e f : κ × α} (hi : table[i]? = some e)
    (hj : table[j]? = some f) : e.1 < f.1 ↔ i < j := by
  obtain ⟨hi', rfl⟩ := List.getElem?_eq_some_iff.mp hi
  obtain ⟨hj', rfl⟩ := List.getElem?_eq_some_iff.mp hj
  have hlt := List.pairwise_iff_getElem.mp h
  rcases lt_trichotomy i j with hij | rfl | hij
  · exact iff_of_true (hlt i j hi' hj' hij) hij
  · exact iff_of_false (lt_irrefl _) (lt_irrefl _)
  · exact iff_of_false (hlt j i hj' hi' hij).not_gt hij.not_gt

/-- **The loop**: as long as the counters enclose every entry with the key, an entry is found
exactly when the table has it. -/
theorem searchFrom_eq_some_iff (hsorted : Sorted table) {lo hi : UInt16}
    (hhi : hi.toNat ≤ table.length)
    (hinside : ∀ i a, table[i]? = some (key, a) → lo.toNat ≤ i ∧ i < hi.toNat) (a : α) :
    searchFrom table key lo hi = some a ↔ (key, a) ∈ table := by
  rw [List.mem_iff_getElem?]
  induction hn : hi.toNat - lo.toNat using Nat.strong_induction_on generalizing lo hi with
  | _ n ih =>
    subst hn
    rw [searchFrom]
    by_cases hlt : lo < hi
    · have hlt' := UInt16.lt_iff_toNat_lt.mp hlt
      have hmid := toNat_middle lo hi
      have hbound : (middle lo hi).toNat < table.length := by omega
      obtain ⟨⟨k, b⟩, hget⟩ : ∃ e, table[(middle lo hi).toNat]? = some e :=
        ⟨_, List.getElem?_eq_getElem hbound⟩
      rw [dif_pos hlt]
      dsimp only
      rw [hget]
      dsimp only
      split
      next hk =>
        -- the entry in the middle, and no other has its key
        subst hk
        rw [Option.some_inj]
        refine ⟨fun hab => ⟨_, hab ▸ hget⟩, fun ⟨i, hi'⟩ => ?_⟩
        have hsame : i = (middle lo hi).toNat := by
          have h1 := hsorted.lt_iff hi' hget
          have h2 := hsorted.lt_iff hget hi'
          simp only [lt_self_iff_false, false_iff] at h1 h2
          omega
        rw [hsame, hget] at hi'
        exact (Prod.mk.inj (Option.some.inj hi')).2
      next hne =>
        split
        next hless =>
          have hnext := toNat_add_one (show (middle lo hi).toNat < hi.toNat by omega)
          refine ih _ (by omega) hhi (fun i c hi' => ?_) rfl
          have habove := (hsorted.lt_iff hget hi').mp hless
          have := hinside i c hi'
          omega
        next hmore =>
          have hgreater : key < k := lt_of_le_of_ne (not_lt.mp hmore) (Ne.symm hne)
          refine ih _ (by omega) (by omega) (fun i c hi' => ?_) rfl
          have hbelow := (hsorted.lt_iff hi' hget).mp hgreater
          have := hinside i c hi'
          omega
    · rw [dif_neg hlt]
      refine iff_of_false (by simp) fun ⟨i, hi'⟩ => hlt ?_
      have := hinside i a hi'
      exact UInt16.lt_iff_toNat_lt.mpr (by omega)

/-- **The search is right** about a sorted table that 16 bits can count. -/
theorem search_eq_some_iff (hsorted : Sorted table) (hlen : table.length < 2 ^ 16) (a : α) :
    search table key = some a ↔ (key, a) ∈ table := by
  have hcount : (UInt16.ofNat table.length).toNat = table.length := by
    rw [UInt16.toNat_ofNat']
    omega
  refine searchFrom_eq_some_iff hsorted hcount.le (fun i b hi => ?_) a
  obtain ⟨hi', -⟩ := List.getElem?_eq_some_iff.mp hi
  exact ⟨Nat.zero_le _, by omega⟩

end Thicket.BinarySearch
