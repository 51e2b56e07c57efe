import Mathlib.Data.List.Chain
import Mathlib.Data.UInt
import Thicket.Base.Runs

/-! # Pacing on a clock that wraps

A loop does something when at least `period` milliseconds have gone by since it last did, both
times read off a 32-bit counter that wraps around. As long as the loop comes by often enough for
the difference to stay within the counter, it keeps the pace however often the counter wraps. -/

namespace Thicket.Pacer

open Runs

/-- What the millisecond counter shows. -/
def clock (t : Nat) : UInt32 := UInt32.ofNat t

/-- `now - last >= period`. -/
def due (period last now : UInt32) : Bool := decide (now - last ≥ period)

/-- One turn of the loop, at time `t`: the time it was last done. -/
def turn (period : UInt32) (last : UInt32) (t : Nat) : UInt32 :=
  if due period last (clock t) then clock t else last

/-- The times at which it is done. -/
def firings (period : UInt32) (last : UInt32) (ts : List Nat) : List Nat :=
  outputs (turn period) (fun last t => if due period last (clock t) then [t] else []) last ts

/-- The loop comes by at least every `gap` milliseconds. -/
def Paced (gap : Nat) (ts : List Nat) : Prop := ts.IsChain fun s t => s ≤ t ∧ t ≤ s + gap

instance (gap : Nat) (ts : List Nat) : Decidable (Paced gap ts) :=
  inferInstanceAs (Decidable (List.IsChain _ ts))

/-- Two firings in a row are a period apart, and not more than a turn longer. -/
def Regular (period gap : Nat) (ts : List Nat) : Prop :=
  ts.IsChain fun s t => s + period ≤ t ∧ t < s + period + gap

/-- **The wrapped difference is the difference** while that fits the counter. -/
theorem due_iff {period : UInt32} {last t : Nat} (hle : last ≤ t) (hlt : t - last < 2 ^ 32) :
    due period (clock last) (clock t) = true ↔ last + period.toNat ≤ t := by
  have hdiff : (clock t - clock last).toNat = t - last := by
    simp only [clock, UInt32.toNat_sub, UInt32.toNat_ofNat']
    omega
  rw [due, decide_eq_true_iff, ge_iff_le, UInt32.le_iff_toNat_le, hdiff]
  omega

variable {period : UInt32} {gap : Nat}

/-- Firings, one turn at a time. -/
theorem firings_cons (last : UInt32) (t : Nat) (ts : List Nat) :
    firings period last (t :: ts)
      = if due period last (clock t) then t :: firings period (clock t) ts
        else firings period last ts := by
  rw [firings, outputs_cons, turn]
  split <;> rfl

/-- **The pace is kept.** From the last firing on, and a turn less than a period after it, firings
are at least a period apart and less than a turn more, and no turn is a period behind. -/
theorem regular_firings {last prev : Nat} {ts : List Nat} (hlast : last ≤ prev)
    (hprev : prev < last + period.toNat) (hpaced : Paced gap (prev :: ts))
    (hfits : period.toNat + gap ≤ 2 ^ 32) :
    Regular period.toNat gap (last :: firings period (clock last) ts) ∧
      ∀ t ∈ ts, ∃ f ∈ last :: firings period (clock last) ts,
        f ≤ t ∧ t < f + period.toNat := by
  induction ts generalizing last prev with
  | nil => exact ⟨.singleton _, by simp⟩
  | cons t ts ih =>
    obtain ⟨⟨hle, hgap⟩, hrest⟩ := List.isChain_cons_cons.mp hpaced
    have hdue := @due_iff period _ _ (hlast.trans hle) (by omega)
    rw [firings_cons]
    by_cases hfire : last + period.toNat ≤ t
    · rw [if_pos (hdue.mpr hfire)]
      have hpos : 0 < period.toNat := by omega
      obtain ⟨hreg, hbehind⟩ := ih (le_refl t) (by omega) hrest
      refine ⟨List.isChain_cons_cons.mpr ⟨⟨hfire, by omega⟩, hreg⟩, ?_⟩
      rw [List.forall_mem_cons]
      refine ⟨⟨t, by simp, le_refl t, by omega⟩, fun u hu => ?_⟩
      obtain ⟨f, hf, hle⟩ := hbehind u hu
      exact ⟨f, List.mem_cons_of_mem _ hf, hle⟩
    · rw [if_neg (fun h => hfire (hdue.mp h))]
      obtain ⟨hreg, hbehind⟩ := ih (hlast.trans hle) (by omega) hrest
      refine ⟨hreg, ?_⟩
      rw [List.forall_mem_cons]
      exact ⟨⟨last, by simp, by omega, by omega⟩, hbehind⟩

/-- **From power-up**, with nothing done yet and a first turn that may be late. -/
theorem regular_firings_zero {first : Nat} {ts : List Nat} (hpos : 0 < period.toNat)
    (hfirst : first < 2 ^ 32) (hpaced : Paced gap (first :: ts))
    (hfits : period.toNat + gap ≤ 2 ^ 32) :
    Regular period.toNat gap (firings period 0 (first :: ts)) ∧
      ∀ t ∈ first :: ts, t < period.toNat ∨ ∃ f ∈ firings period 0 (first :: ts),
        f ≤ t ∧ t < f + period.toNat := by
  have hdue := @due_iff period _ _ (Nat.zero_le first) hfirst
  have hzero : clock 0 = 0 := rfl
  rw [hzero, Nat.zero_add] at hdue
  rw [firings_cons, List.forall_mem_cons]
  by_cases hlate : period.toNat ≤ first
  · obtain ⟨hreg, hbehind⟩ := regular_firings (le_refl first) (by omega) hpaced hfits
    rw [if_pos (hdue.mpr hlate)]
    exact ⟨hreg, .inr ⟨first, by simp, le_refl first, by omega⟩, fun t ht => .inr (hbehind t ht)⟩
  · obtain ⟨hreg, hbehind⟩ := regular_firings (Nat.zero_le first) (by omega) hpaced hfits
    rw [if_neg fun h => hlate (hdue.mp h)]
    refine ⟨hreg.tail, .inl (by omega), fun t ht => ?_⟩
    -- nothing fired yet, or the firing that is not a period ago
    obtain ⟨f, hf, hle, hlt⟩ := hbehind t ht
    obtain rfl | hf := List.mem_cons.mp hf
    · exact .inl (by omega)
    · exact .inr ⟨f, hf, hle, hlt⟩

end Thicket.Pacer
