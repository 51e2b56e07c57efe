import Thicket.Base.Runs
import Thicket.Base.Scan

/-! # What loops over a buffer read

A buffer is handed over as a pointer and a length. What is read of it is a list of indices, each
with the length it was read under; the forward and the backward loop read the indices at which
they test their condition. -/

namespace Thicket

/-- A byte that is read, and the length of the buffer it is read of. -/
structure Read where
  /-- The index. -/
  index : Nat
  /-- The length that was handed over. -/
  len : Nat
  deriving DecidableEq, Repr

/-- **Nothing is read past the end.** -/
def InBounds (xs : List Read) : Prop := ∀ x ∈ xs, x.index < x.len

instance (xs : List Read) : Decidable (InBounds xs) :=
  inferInstanceAs (Decidable (∀ x ∈ xs, _))

/-- These indices of one buffer are read. -/
def readsOf (len : Nat) (is : List Nat) : List Read := is.map fun i => ⟨i, len⟩

@[simp] theorem inBounds_nil : InBounds [] := fun _ h => absurd h List.not_mem_nil

@[simp] theorem inBounds_append {xs ys : List Read} :
    InBounds (xs ++ ys) ↔ InBounds xs ∧ InBounds ys := List.forall_mem_append

@[simp] theorem inBounds_flatMap {ι : Type*} {is : List ι} {xs : ι → List Read} :
    InBounds (is.flatMap xs) ↔ ∀ i ∈ is, InBounds (xs i) := by
  simp only [InBounds, List.mem_flatMap]
  exact ⟨fun h i hi x hx => h x ⟨i, hi, hx⟩, fun h x ⟨i, hi, hx⟩ => h i hi x hx⟩

@[simp] theorem inBounds_readsOf {len : Nat} {is : List Nat} :
    InBounds (readsOf len is) ↔ ∀ i ∈ is, i < len := by
  simp only [InBounds, readsOf, List.forall_mem_map]

/-- **The reads of a run are in bounds iff those of every step are.** -/
theorem inBounds_outputs {σ ι : Type*} {step : σ → ι → σ} {out : σ → ι → List Read} {s : σ}
    {is : List ι} : InBounds (Runs.outputs step out s is)
      ↔ Runs.Along step (fun s i => InBounds (out s i)) s is := by
  induction is generalizing s with
  | nil => simp
  | cons i is ih => rw [Runs.outputs_cons, inBounds_append, ih, Runs.along_cons]

/-! ## Loops -/

variable {p : Nat → Bool} {f : Nat → Nat} {n : Nat}

/-- The indices at which `while (k < n && p(k)) k += f(k)` tests its condition. -/
def tested (p : Nat → Bool) (f : Nat → Nat) (n k : Nat) : List Nat :=
  positions f k (scan p f n k) ++ if scan p f n k < n then [scan p f n k] else []

/-- The indices at which `while (b > a && p(b - 1)) --b` tests its condition. -/
def backTested (p : Nat → Bool) (a : Nat) : Nat → List Nat
  | 0 => []
  | b + 1 => if a < b + 1 then b :: if p b then backTested p a b else [] else []

/-- **A loop that ends a number of strides further on** has been at indices that are a number of
strides further on as well, each of them within the bound. -/
theorem strides_of_mem_positions (hf : ∀ k, 0 < f k) {a b k : Nat} (h : Strides f n a b)
    (hk : k ∈ positions f a b) : Strides f n a k ∧ k < n := by
  induction h with
  | refl =>
    rw [positions_of_le le_rfl] at hk
    cases hk
  | @step b hb h ih =>
    have hpos := hf b
    have hone : positions f b (b + f b) = [b] := by
      rw [positions_eq hf, if_pos (by omega), positions_of_le le_rfl]
    rw [positions_cut hf h (m := b + f b) (by omega), hone] at hk
    rcases List.mem_append.mp hk with hk | hk
    · exact ih hk
    · rw [List.mem_singleton.mp hk]
      exact ⟨h, hb⟩

/-- Its strides from there do not lead past where it ends. -/
theorem add_le_of_mem_positions (hf : ∀ k, 0 < f k) {a b k : Nat} (h : Strides f n a b)
    (hk : k ∈ positions f a b) : k + f k ≤ b := by
  induction h with
  | refl =>
    rw [positions_of_le le_rfl] at hk
    cases hk
  | @step b hb h ih =>
    have hpos := hf b
    have hone : positions f b (b + f b) = [b] := by
      rw [positions_eq hf, if_pos (by omega), positions_of_le le_rfl]
    rw [positions_cut hf h (m := b + f b) (by omega), hone] at hk
    rcases List.mem_append.mp hk with hk | hk
    · exact (ih hk).trans (Nat.le_add_right b (f b))
    · rw [List.mem_singleton.mp hk]

/-- **The forward loop tests below its bound**, where its strides lead. -/
theorem strides_of_mem_tested (hf : ∀ k, 0 < f k) {k i : Nat} (h : i ∈ tested p f n k) :
    Strides f n k i ∧ i < n := by
  rcases List.mem_append.mp h with h | h
  · exact strides_of_mem_positions hf (strides_scan k) h
  · split at h
    next hlt =>
      rw [List.mem_singleton.mp h]
      exact ⟨strides_scan k, hlt⟩
    next => cases h

/-- So does a loop of unit strides, where the strides are one. -/
theorem strides_of_mem_tested_one (hf : ∀ k, 0 < f k) (hone : ∀ k, p k → f k = 1) {k i : Nat}
    (h : i ∈ tested p (fun _ => 1) n k) : Strides f n k i ∧ i < n := by
  rcases List.mem_append.mp h with h | h
  · refine strides_of_mem_positions hf (strides_scan_one hone k) ?_
    rwa [← positions_congr fun j hj => ?_]
    obtain ⟨hle, hlt⟩ := mem_positions hj
    exact (hone j (of_lt_scan_one hle hlt)).symm
  · split at h
    next hlt =>
      rw [List.mem_singleton.mp h]
      exact ⟨strides_scan_one hone k, hlt⟩
    next => cases h

/-- A loop of unit strides tests every index that it passes. -/
theorem mem_tested_one {a k : Nat} (ha : a ≤ k) (hk : k < scan p (fun _ => 1) n a) :
    k ∈ tested p (fun _ => 1) n a := by
  obtain ⟨j, hj, hle, hlt⟩ := exists_position_of_lt (f := fun _ => 1) (fun _ => Nat.one_pos) ha hk
  rw [show k = j by omega]
  exact List.mem_append_left _ hj

/-- The backward loop tests below where it begins. -/
theorem lt_of_mem_backTested {a b i : Nat} (h : i ∈ backTested p a b) : i < b := by
  induction b with
  | zero => cases h
  | succ b ih =>
    rw [backTested] at h
    split at h
    · rcases List.mem_cons.mp h with rfl | h
      · exact Nat.lt_succ_self i
      · split at h
        · exact Nat.lt_succ_of_lt (ih h)
        · cases h
    · cases h

end Thicket
