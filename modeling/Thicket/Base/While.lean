import Thicket.Base.Runs
import Thicket.Base.Scan

/-! # While loops

`while (guard) body`, without fuel: the relation between the state in which a loop begins and the
one in which it ends. A loop that never ends is related to nothing. The loops over a buffer, which
are defined with as much fuel as there are indices left, end where this relation says. -/

namespace Thicket

variable {σ : Type*}

/-- **The loop ends**: from one state, in another. -/
inductive Exits (guard : σ → Prop) (body : σ → σ) : σ → σ → Prop
  /-- The guard fails. -/
  | stop {s : σ} (hs : ¬ guard s) : Exits guard body s s
  /-- One turn of the body. -/
  | turn {s e : σ} (hs : guard s) : Exits guard body (body s) e → Exits guard body s e

variable {p : Nat → Bool} {f : Nat → Nat} {n : Nat}

/-- **The forward loop ends** where `scan` says. -/
theorem exits_scan (hf : ∀ k, 0 < f k) (k : Nat) :
    Exits (fun k => k < n ∧ p k) (fun k => k + f k) k (scan p f n k) := by
  induction hm : n - k using Nat.strongRecOn generalizing k with
  | _ m ih =>
    rw [scan_eq hf]
    by_cases hk : k < n ∧ p k
    · have hpos := hf k
      rw [if_pos hk]
      exact .turn hk (ih (n - (k + f k)) (by omega) (k + f k) rfl)
    · rw [if_neg hk]
      exact .stop hk

/-- **The indexed loop ends**: its body has run over `positions`. -/
theorem exits_positions (hf : ∀ k, 0 < f k) (step : σ → Nat → σ) (a : Nat) (s : σ) :
    ∃ e, Exits (fun q : Nat × σ => q.1 < n) (fun q => (q.1 + f q.1, step q.2 q.1)) (a, s)
      (e, Runs.run step s (positions f a n)) := by
  induction hm : n - a using Nat.strongRecOn generalizing a s with
  | _ m ih =>
    rw [positions_eq hf]
    by_cases ha : a < n
    · have hpos := hf a
      obtain ⟨e, he⟩ := ih (n - (a + f a)) (by omega) (a + f a) (step s a) rfl
      rw [if_pos ha]
      exact ⟨e, .turn ha he⟩
    · rw [if_neg ha]
      exact ⟨a, .stop ha⟩

/-- **The backward loop ends** where `backWhile` says. -/
theorem exits_backWhile (p : Nat → Bool) (a b : Nat) :
    Exits (fun b => a < b ∧ p (b - 1)) (· - 1) b (backWhile p a b) := by
  induction b with
  | zero => exact .stop fun h => absurd h.1 (Nat.not_lt_zero a)
  | succ b ih =>
    rw [backWhile]
    by_cases hb : a < b + 1 ∧ p b
    · rw [if_pos hb]
      exact .turn hb ih
    · rw [if_neg hb]
      exact .stop hb

/-- **The loop that tests every index** gives up at the first that fails. -/
theorem exits_all (p : Nat → Bool) (n a : Nat) :
    ∃ e, Exits (fun q : Nat × Bool => q.1 < n ∧ q.2) (fun q => (q.1 + 1, p q.1)) (a, true)
      (e, (List.range' a (n - a)).all p) := by
  induction hm : n - a generalizing a with
  | zero => exact ⟨a, .stop fun h => absurd h.1 (by omega)⟩
  | succ m ih =>
    have ha : a < n := by omega
    rw [List.range'_succ, List.all_cons]
    by_cases hp : p a
    · obtain ⟨e, he⟩ := ih (a + 1) (by omega)
      refine ⟨e, .turn ⟨ha, rfl⟩ ?_⟩
      rwa [hp, Bool.true_and]
    · rw [Bool.not_eq_true] at hp
      refine ⟨a + 1, .turn ⟨ha, rfl⟩ ?_⟩
      rw [hp, Bool.false_and]
      exact .stop fun h => Bool.false_ne_true h.2

end Thicket
