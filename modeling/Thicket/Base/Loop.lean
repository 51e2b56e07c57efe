import Mathlib.Data.Nat.Basic
import Mathlib.Data.UInt

/-! # Loops with a 16-bit counter

`for (uint16_t i = a; i < b; ++i) body` with a bound `b` computed in a wider type. The counter
wraps, so the loop runs over `[a, b)` when `b` is itself a 16-bit value and never ends otherwise.
The body may fail to return; so may the loop, which is then `none`. -/

namespace Thicket

variable {σ : Type*}

/-- The loop from `i`, given up after `fuel` tests of the bound. -/
def forUpTo (b : Nat) (body : UInt16 → σ → Option σ) : Nat → UInt16 → σ → Option σ
  | 0, _, _ => none
  | fuel + 1, i, s =>
      if i.toNat < b then (body i s).bind (forUpTo b body fuel (i + 1)) else some s

/-- The loop: as many tests as a 16-bit counter can need. -/
def forU16 (a : UInt16) (b : Nat) (body : UInt16 → σ → Option σ) (s : σ) : Option σ :=
  forUpTo b body 65536 a s

variable {b : Nat} {body : UInt16 → σ → Option σ}

/-- **A bound beyond 16 bits is never reached**, whatever the fuel. -/
theorem forUpTo_eq_none (hb : 65536 ≤ b) (fuel : Nat) (i : UInt16) (s : σ) :
    forUpTo b body fuel i s = none := by
  induction fuel generalizing i s with
  | zero => rfl
  | succ fuel ih =>
    have hlt : i.toNat < b := Nat.lt_of_lt_of_le i.toNat_lt hb
    rw [forUpTo, if_pos hlt]
    cases body i s with
    | none => rfl
    | some t => exact ih _ t

/-- Enough fuel for the counter to reach a 16-bit bound runs the body over the interval. -/
theorem forUpTo_eq_foldlM (hb : b ≤ 65535) {fuel : Nat} {i : UInt16} (hfuel : b - i.toNat < fuel)
    (s : σ) : forUpTo b body fuel i s
      = (List.range' i.toNat (b - i.toNat)).foldlM (fun s n => body (UInt16.ofNat n) s) s := by
  induction fuel generalizing i s with
  | zero => omega
  | succ fuel ih =>
    rw [forUpTo]
    by_cases hlt : i.toNat < b
    · have hnext : (i + 1).toNat = i.toNat + 1 := by
        rw [UInt16.toNat_add]
        simp only [UInt16.toNat_one]
        omega
      -- below the bound the counter does not wrap around
      have hlen : b - i.toNat = (b - (i.toNat + 1)) + 1 := by omega
      rw [if_pos hlt, hlen, List.range'_succ, List.foldlM_cons, UInt16.ofNat_toNat]
      congr 1
      funext t
      rw [ih (by omega) t, hnext]
    · rw [if_neg hlt, Nat.sub_eq_zero_of_le (Nat.not_lt.mp hlt)]
      rfl

/-- **A 16-bit bound is reached**: the loop runs the body over `[a, b)`. -/
theorem forU16_eq_foldlM (hb : b ≤ 65535) (a : UInt16) (s : σ) :
    forU16 a b body s
      = (List.range' a.toNat (b - a.toNat)).foldlM (fun s n => body (UInt16.ofNat n) s) s :=
  forUpTo_eq_foldlM hb (by omega) s

/-- **A loop whose body always returns, returns iff its bound is a 16-bit value.** -/
theorem forU16_isSome_iff (hbody : ∀ i s, (body i s).isSome) (a : UInt16) (s : σ) :
    (forU16 a b body s).isSome ↔ b ≤ 65535 := by
  constructor
  · intro h
    by_contra hb
    rw [forU16, forUpTo_eq_none (by omega)] at h
    cases h
  · intro hb
    rw [forU16_eq_foldlM hb]
    generalize List.range' a.toNat (b - a.toNat) = is
    induction is generalizing s with
    | nil => rfl
    | cons n ns ih =>
      obtain ⟨t, ht⟩ := Option.isSome_iff_exists.mp (hbody (UInt16.ofNat n) s)
      rw [List.foldlM_cons, ht]
      exact ih t

/-- A loop whose body never returns does not, once it begins. -/
theorem forU16_eq_none (hbody : ∀ i s, body i s = none) {a : UInt16} (hlt : a.toNat < b) (s : σ) :
    forU16 a b body s = none := by
  show forUpTo b body (65535 + 1) a s = none
  rw [forUpTo, if_pos hlt, hbody]
  rfl

/-- **Invariant rule.** What the body preserves when it returns, the loop preserves. -/
theorem forUpTo_invariant (Inv : σ → Prop)
    (hbody : ∀ i s t, Inv s → body i s = some t → Inv t) {fuel : Nat} {i : UInt16} {s t : σ}
    (hs : Inv s) (h : forUpTo b body fuel i s = some t) : Inv t := by
  induction fuel generalizing i s with
  | zero => cases h
  | succ fuel ih =>
    rw [forUpTo] at h
    split at h
    next =>
      obtain ⟨u, hu, hrest⟩ := Option.bind_eq_some_iff.mp h
      exact ih (hbody i s u hs hu) hrest
    next => exact Option.some.inj h ▸ hs

/-- The invariant rule for the whole loop. -/
theorem forU16_invariant (Inv : σ → Prop)
    (hbody : ∀ i s t, Inv s → body i s = some t → Inv t) {a : UInt16} {s t : σ}
    (hs : Inv s) (h : forU16 a b body s = some t) : Inv t :=
  forUpTo_invariant Inv hbody hs h

end Thicket
