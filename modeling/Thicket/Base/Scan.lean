import Mathlib.Data.List.Basic
import Mathlib.Data.Nat.Basic

/-! # Index loops over a buffer

The three loops a hand-written text walk is made of: `while (k < n && p(k)) k += f(k)` (`scan`),
`while (b > a && p(b - 1)) --b` (`backWhile`), and `for (k = a; k < n; k += f(k))`, as the list of
the indices it visits (`positions`). A stride may jump over the bound. -/

namespace Thicket

variable {p : Nat → Bool} {f : Nat → Nat} {n : Nat}

/-- The forward loop, given up after `fuel` strides. -/
def scanUpTo (p : Nat → Bool) (f : Nat → Nat) (n : Nat) : Nat → Nat → Nat
  | 0, k => k
  | fuel + 1, k => if k < n ∧ p k then scanUpTo p f n fuel (k + f k) else k

/-- `while (k < n && p(k)) k += f(k)`. -/
def scan (p : Nat → Bool) (f : Nat → Nat) (n k : Nat) : Nat := scanUpTo p f n (n - k) k

/-- As much fuel as there are indices left is enough. -/
theorem scanUpTo_eq (hf : ∀ k, 0 < f k) {fuel fuel' k : Nat} (h : n - k ≤ fuel)
    (h' : n - k ≤ fuel') : scanUpTo p f n fuel k = scanUpTo p f n fuel' k := by
  induction fuel generalizing fuel' k with
  | zero =>
    have hk : ¬ (k < n ∧ p k) := fun hk => by omega
    cases fuel' with
    | zero => rfl
    | succ fuel' => rw [scanUpTo, scanUpTo, if_neg hk]
  | succ fuel ih =>
    by_cases hk : k < n ∧ p k
    · have hpos := hf k
      obtain ⟨fuel', rfl⟩ : ∃ j, fuel' = j + 1 := ⟨fuel' - 1, by omega⟩
      rw [scanUpTo, scanUpTo, if_pos hk, if_pos hk]
      exact ih (by omega) (by omega)
    · cases fuel' with
      | zero => rw [scanUpTo, scanUpTo, if_neg hk]
      | succ fuel' => rw [scanUpTo, scanUpTo, if_neg hk, if_neg hk]

/-- **The forward loop**: stop, or stride and go on. -/
theorem scan_eq (hf : ∀ k, 0 < f k) (k : Nat) :
    scan p f n k = if k < n ∧ p k then scan p f n (k + f k) else k := by
  rw [scan, scanUpTo_eq hf le_rfl (Nat.le_succ _), scanUpTo]
  split
  · exact scanUpTo_eq hf (by have := hf k; omega) le_rfl
  · rfl

/-- The forward loop does not go back. -/
theorem le_scan (k : Nat) : k ≤ scan p f n k := by
  unfold scan
  generalize n - k = fuel
  induction fuel generalizing k with
  | zero => exact le_rfl
  | succ fuel ih =>
    rw [scanUpTo]
    split
    · exact Nat.le_trans (Nat.le_add_right k (f k)) (ih _)
    · exact le_rfl

/-- A loop of unit strides ends within its bound. -/
theorem scan_one_le {a : Nat} (h : a ≤ n) : scan p (fun _ => 1) n a ≤ n := by
  unfold scan
  generalize n - a = fuel
  induction fuel generalizing a with
  | zero => exact h
  | succ fuel ih =>
    rw [scanUpTo]
    split
    next hlt => exact ih hlt.1
    next => exact h

/-- Every index a loop of unit strides has passed meets its condition. -/
theorem of_lt_scan_one {a k : Nat} (hk : a ≤ k) (hlt : k < scan p (fun _ => 1) n a) : p k := by
  induction hm : n - a using Nat.strongRecOn generalizing a with
  | _ m ih =>
    rw [scan_eq (fun _ => Nat.one_pos)] at hlt
    split at hlt
    next ha =>
      rcases Nat.eq_or_lt_of_le hk with rfl | hk'
      · exact ha.2
      · exact ih (n - (a + 1)) (by omega) hk' hlt rfl
    next => exact absurd hk (Nat.not_le.mpr hlt)

/-- Where such a loop stops within the bound, its condition fails. -/
theorem not_of_scan_one_lt {a : Nat} (h : scan p (fun _ => 1) n a < n) :
    ¬ p (scan p (fun _ => 1) n a) := by
  induction hm : n - a using Nat.strongRecOn generalizing a with
  | _ m ih =>
    rw [scan_eq (fun _ => Nat.one_pos)] at h ⊢
    split at h
    next ha =>
      rw [if_pos ha]
      exact ih (n - (a + 1)) (by omega) h rfl
    next ha =>
      rw [if_neg ha]
      exact fun hp => ha ⟨h, hp⟩

/-- `while (b > a && p(b - 1)) --b`. -/
def backWhile (p : Nat → Bool) (a : Nat) : Nat → Nat
  | 0 => 0
  | b + 1 => if a < b + 1 ∧ p b then backWhile p a b else b + 1

/-- The backward loop does not go forward. -/
theorem backWhile_le (a b : Nat) : backWhile p a b ≤ b := by
  induction b with
  | zero => exact le_rfl
  | succ b ih =>
    rw [backWhile]
    split
    · exact Nat.le_trans ih (Nat.le_succ b)
    · exact le_rfl

/-- Where it stops above its bound, its condition fails below. -/
theorem not_of_lt_backWhile {a b : Nat} (h : a < backWhile p a b) : ¬ p (backWhile p a b - 1) := by
  induction b with
  | zero => exact absurd h (Nat.not_lt_zero a)
  | succ b ih =>
    rw [backWhile] at h ⊢
    split at h
    next hc =>
      rw [if_pos hc]
      exact ih h
    next hc =>
      rw [if_neg hc]
      exact fun hp => hc ⟨h, hp⟩

/-- The indices of the loop, given up after `fuel` strides. -/
def positionsUpTo (f : Nat → Nat) (n : Nat) : Nat → Nat → List Nat
  | 0, _ => []
  | fuel + 1, k => if k < n then k :: positionsUpTo f n fuel (k + f k) else []

/-- The indices that `for (k = a; k < n; k += f(k))` visits. -/
def positions (f : Nat → Nat) (a n : Nat) : List Nat := positionsUpTo f n (n - a) a

/-- As much fuel as there are indices left is enough. -/
theorem positionsUpTo_eq (hf : ∀ k, 0 < f k) {fuel fuel' k : Nat} (h : n - k ≤ fuel)
    (h' : n - k ≤ fuel') : positionsUpTo f n fuel k = positionsUpTo f n fuel' k := by
  induction fuel generalizing fuel' k with
  | zero =>
    have hk : ¬ k < n := by omega
    cases fuel' with
    | zero => rfl
    | succ fuel' => rw [positionsUpTo, positionsUpTo, if_neg hk]
  | succ fuel ih =>
    by_cases hk : k < n
    · have hpos := hf k
      obtain ⟨fuel', rfl⟩ : ∃ j, fuel' = j + 1 := ⟨fuel' - 1, by omega⟩
      rw [positionsUpTo, positionsUpTo, if_pos hk, if_pos hk]
      exact congrArg _ (ih (by omega) (by omega))
    · cases fuel' with
      | zero => rw [positionsUpTo, positionsUpTo, if_neg hk]
      | succ fuel' => rw [positionsUpTo, positionsUpTo, if_neg hk, if_neg hk]

/-- **The indexed loop**: the first index, and those from the next one on. -/
theorem positions_eq (hf : ∀ k, 0 < f k) (a : Nat) :
    positions f a n = if a < n then a :: positions f (a + f a) n else [] := by
  rw [positions, positionsUpTo_eq hf le_rfl (Nat.le_succ _), positionsUpTo]
  split
  · exact congrArg _ (positionsUpTo_eq hf (by have := hf a; omega) le_rfl)
  · rfl

/-- Past the bound there is nothing to visit. -/
theorem positions_of_le {a : Nat} (h : n ≤ a) : positions f a n = [] := by
  rw [positions, Nat.sub_eq_zero_of_le h]
  rfl

/-- Every index visited is within the bounds. -/
theorem mem_positions {a k : Nat} (h : k ∈ positions f a n) : a ≤ k ∧ k < n := by
  unfold positions at h
  generalize n - a = fuel at h
  induction fuel generalizing a with
  | zero => cases h
  | succ fuel ih =>
    rw [positionsUpTo] at h
    split at h
    next hlt =>
      obtain rfl | hmem := List.mem_cons.mp h
      · exact ⟨le_rfl, hlt⟩
      · exact ⟨Nat.le_trans (Nat.le_add_right a (f a)) (ih hmem).1, (ih hmem).2⟩
    next => cases h

/-- The indices that a forward loop strides over meet its condition. -/
theorem of_mem_positions_scan (hf : ∀ k, 0 < f k) {a k : Nat}
    (h : k ∈ positions f a (scan p f n a)) : p k := by
  induction hm : n - a using Nat.strongRecOn generalizing a with
  | _ m ih =>
    by_cases ha : a < n ∧ p a
    · have hpos := hf a
      rw [scan_eq hf, if_pos ha, positions_eq hf] at h
      split at h
      · obtain rfl | hmem := List.mem_cons.mp h
        · exact ha.2
        · exact ih (n - (a + f a)) (by omega) hmem rfl
      · cases h
    · rw [scan_eq hf, if_neg ha, positions_of_le le_rfl] at h
      cases h

/-- Where the strides of the indexed loop are one, a forward loop steps over as many indices as it
moves. -/
theorem length_positions_scan_one (hf : ∀ k, 0 < f k) (hone : ∀ k, p k → f k = 1) (a : Nat) :
    (positions f a (scan p (fun _ => 1) n a)).length = scan p (fun _ => 1) n a - a := by
  induction hm : n - a using Nat.strongRecOn generalizing a with
  | _ m ih =>
    by_cases ha : a < n ∧ p a
    · have hlt : a < scan p (fun _ => 1) n (a + 1) := le_scan _
      rw [scan_eq (fun _ => Nat.one_pos), if_pos ha, positions_eq hf, if_pos hlt, hone a ha.2,
        List.length_cons, ih (n - (a + 1)) (by omega) (a + 1) rfl]
      omega
    · rw [scan_eq (fun _ => Nat.one_pos), if_neg ha, positions_of_le le_rfl, Nat.sub_self]
      rfl

/-- **Indices may be counted from anywhere.** -/
theorem map_positions_add (f : Nat → Nat) (c a n : Nat) :
    (positions (fun k => f (c + k)) a n).map (c + ·) = positions f (c + a) (c + n) := by
  unfold positions
  rw [Nat.add_sub_add_left]
  generalize n - a = fuel
  induction fuel generalizing a with
  | zero => rfl
  | succ fuel ih =>
    rw [positionsUpTo, positionsUpTo]
    by_cases ha : a < n
    · rw [if_pos ha, if_pos (by omega), List.map_cons, ih, Nat.add_assoc]
    · rw [if_neg ha, if_neg (by omega), List.map_nil]

/-- As many from anywhere. -/
theorem length_positions_add (f : Nat → Nat) (c a n : Nat) :
    (positions (fun k => f (c + k)) a n).length = (positions f (c + a) (c + n)).length := by
  rw [← map_positions_add, List.length_map]

/-- A loop visits no more indices than there are. -/
theorem length_positions_le (hf : ∀ k, 0 < f k) {a : Nat} : (positions f a n).length ≤ n - a := by
  induction hm : n - a using Nat.strongRecOn generalizing a with
  | _ m ih =>
    rw [positions_eq hf]
    split
    next ha =>
      have hpos := hf a
      have hrest := ih (n - (a + f a)) (by omega) rfl
      rw [List.length_cons]
      omega
    next => exact Nat.zero_le _

/-- Loops whose conditions and strides agree within the bound go the same way. -/
theorem scan_congr {q : Nat → Bool} {g : Nat → Nat} (hp : ∀ k < n, p k = q k)
    (hf : ∀ k < n, f k = g k) (a : Nat) : scan p f n a = scan q g n a := by
  unfold scan
  generalize n - a = fuel
  induction fuel generalizing a with
  | zero => rfl
  | succ fuel ih =>
    rw [scanUpTo, scanUpTo]
    by_cases ha : a < n
    · rw [hp a ha, hf a ha, ih]
    · rw [if_neg fun h => ha h.1, if_neg fun h => ha h.1]

/-- Backward loops whose conditions agree below the start go the same way. -/
theorem backWhile_congr {q : Nat → Bool} {b : Nat} (hp : ∀ k < b, p k = q k) (a : Nat) :
    backWhile p a b = backWhile q a b := by
  induction b with
  | zero => rfl
  | succ b ih =>
    rw [backWhile, backWhile, hp b (Nat.lt_succ_self b),
      ih fun k hk => hp k (Nat.lt_succ_of_lt hk)]

/-- Loops whose strides agree where the first goes visit the same indices. -/
theorem positions_congr {g : Nat → Nat} {a : Nat} (h : ∀ k ∈ positions f a n, f k = g k) :
    positions f a n = positions g a n := by
  unfold positions at h ⊢
  generalize n - a = fuel at h ⊢
  induction fuel generalizing a with
  | zero => rfl
  | succ fuel ih =>
    rw [positionsUpTo] at h
    rw [positionsUpTo, positionsUpTo]
    split
    next ha =>
      rw [if_pos ha] at h
      rw [← h a List.mem_cons_self]
      exact congrArg _ (ih fun k hk => h k (List.mem_cons_of_mem a hk))
    next => rfl

/-- The last stride of a loop reaches its bound. -/
theorem exists_last_position (hf : ∀ k, 0 < f k) {a : Nat} (h : a < n) :
    ∃ k ∈ positions f a n, n ≤ k + f k := by
  induction hm : n - a using Nat.strongRecOn generalizing a with
  | _ m ih =>
    rw [positions_eq hf, if_pos h]
    by_cases hlast : n ≤ a + f a
    · exact ⟨a, List.mem_cons_self, hlast⟩
    · have hpos := hf a
      obtain ⟨k, hk, hreach⟩ := ih (n - (a + f a)) (by omega) (Nat.not_le.mp hlast) rfl
      exact ⟨k, List.mem_cons_of_mem a hk, hreach⟩

/-- Every index is in a stride of the loop. -/
theorem exists_position_of_lt (hf : ∀ k, 0 < f k) {a k : Nat} (ha : a ≤ k) (hk : k < n) :
    ∃ j ∈ positions f a n, j ≤ k ∧ k < j + f j := by
  induction hm : n - a using Nat.strongRecOn generalizing a with
  | _ m ih =>
    rw [positions_eq hf, if_pos (Nat.lt_of_le_of_lt ha hk)]
    by_cases hin : k < a + f a
    · exact ⟨a, List.mem_cons_self, ha, hin⟩
    · have hpos := hf a
      obtain ⟨j, hj, hstride⟩ := ih (n - (a + f a)) (by omega) (Nat.not_lt.mp hin) rfl
      exact ⟨j, List.mem_cons_of_mem a hj, hstride⟩

/-- `b` is reached from `a` by strides, each from an index below the bound. -/
inductive Strides (f : Nat → Nat) (n a : Nat) : Nat → Prop
  /-- No stride. -/
  | refl : Strides f n a a
  /-- One more stride. -/
  | step {b : Nat} (hb : b < n) : Strides f n a b → Strides f n a (b + f b)

/-- Strides compose. -/
theorem Strides.trans {a b c : Nat} (hab : Strides f n a b) (hbc : Strides f n b c) :
    Strides f n a c := by
  induction hbc with
  | refl => exact hab
  | step hb _ ih => exact ih.step hb

/-- The forward loop ends a number of strides further on. -/
theorem strides_scan (k : Nat) : Strides f n k (scan p f n k) := by
  unfold scan
  generalize n - k = fuel
  induction fuel generalizing k with
  | zero => exact .refl
  | succ fuel ih =>
    rw [scanUpTo]
    split
    next h => exact (Strides.refl.step h.1).trans (ih _)
    next => exact .refl

/-- So does one of unit strides where the strides are one. -/
theorem strides_scan_one (hone : ∀ k, p k → f k = 1) (k : Nat) :
    Strides f n k (scan p (fun _ => 1) n k) := by
  unfold scan
  generalize n - k = fuel
  induction fuel generalizing k with
  | zero => exact .refl
  | succ fuel ih =>
    rw [scanUpTo]
    split
    next h => exact (hone k h.2 ▸ Strides.refl.step h.1 : Strides f n k (k + 1)).trans (ih _)
    next => exact .refl

/-- A loop may be cut at an index it reaches within its bound. -/
theorem positions_cut (hf : ∀ k, 0 < f k) {a b : Nat} (h : Strides f n a b) {m : Nat}
    (hm : b ≤ m) : positions f a m = positions f a b ++ positions f b m := by
  induction h generalizing m with
  | refl => rw [positions_of_le le_rfl, List.nil_append]
  | @step b hb _ ih =>
    have hpos := hf b
    rw [ih (m := m) (by omega), ih (m := b + f b) (by omega), positions_eq hf b,
      positions_eq (n := b + f b) hf b, if_pos (by omega), if_pos (by omega),
      positions_of_le (a := b + f b) le_rfl, List.append_assoc, List.singleton_append]

/-- **A loop may be cut at an index it reaches**, the last one, past the bound, included. -/
theorem positions_split (hf : ∀ k, 0 < f k) {a b : Nat} (h : Strides f n a b) :
    positions f a n = positions f a b ++ positions f b n := by
  cases h with
  | refl => rw [positions_of_le le_rfl, List.nil_append]
  | @step b hb h =>
    have hpos := hf b
    rw [positions_cut hf h (Nat.le_of_lt hb), positions_cut hf h (m := b + f b) (by omega),
      positions_eq hf b, positions_eq (n := b + f b) hf b, if_pos hb, if_pos (by omega),
      positions_of_le (a := b + f b) le_rfl, List.append_assoc, List.singleton_append]

/-- An index that the loop reaches within its bound is visited. -/
theorem mem_positions_of_strides (hf : ∀ k, 0 < f k) {a b : Nat} (h : Strides f n a b)
    (hb : b < n) : b ∈ positions f a n := by
  rw [positions_split hf h, positions_eq hf b, if_pos hb]
  exact List.mem_append_right _ List.mem_cons_self

end Thicket
