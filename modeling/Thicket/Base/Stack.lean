import Mathlib.Algebra.Order.Group.Unbundled.Int
import Thicket.Base.Runs

/-! # Machines with a stack

Each step of a machine pushes one thing on a stack, pops one, or leaves the stack alone. What lies
on top after a run was pushed by the push that matches, as brackets do: between the two the pushes
and the pops cancel, and no pop takes what lay there before. -/

namespace Thicket.Runs

variable {σ ι α : Type*}

/-- What a step does to the stack. -/
inductive Effect (α : Type*) where
  /-- One more on top. -/
  | push (a : α)
  /-- The top is taken off. -/
  | pop
  /-- The stack stays. -/
  | stay

/-- How much higher the stack is. -/
def Effect.rise : Effect α → Int
  | .push _ => 1
  | .pop => -1
  | .stay => 0

/-- What is done to a stack, top first. -/
def Effect.Does : Effect α → List α → List α → Prop
  | .push a, l, m => m = a :: l
  | .pop, l, m => ∃ a, l = a :: m
  | .stay, l, m => m = l

/-- Steps do to a stack what is said of them. -/
def Stacked (step : σ → ι → σ) (stack : σ → List α) (effect : σ → ι → Effect α) : Prop :=
  ∀ s i, (effect s i).Does (stack s) (stack (step s i))

variable (step : σ → ι → σ) (effect : σ → ι → Effect α)

/-- How much higher the stack is after a run. -/
def rise (s : σ) : List ι → Int
  | [] => 0
  | i :: is => (effect s i).rise + rise (step s i) is

/-- The pushes and the pops of a run cancel, and no pop is without its push. -/
def Balanced (s : σ) (is : List ι) : Prop :=
  rise step effect s is = 0 ∧ ∀ js, js <+: is → 0 ≤ rise step effect s js

variable {step effect} {s : σ} {is js : List ι}

/-- Where a run ends that is a part of two, one after the other. -/
theorem isPrefix_append_cases {ks : List ι} (h : ks <+: is ++ js) :
    ks <+: is ∨ ∃ ls, ks = is ++ ls ∧ ls <+: js := by
  obtain hpre | ⟨ls, rfl⟩ := List.prefix_or_prefix_of_prefix h (List.prefix_append is js)
  · exact .inl hpre
  · exact .inr ⟨ls, rfl, (List.prefix_append_right_inj is).mp h⟩

/-- Where a run ends that is a part of one step. -/
theorem isPrefix_singleton_cases {i : ι} {ks : List ι} (h : ks <+: [i]) : ks = [] ∨ ks = [i] := by
  obtain rfl | ⟨ls, rfl, hls⟩ := List.prefix_cons_iff.mp h
  · exact .inl rfl
  · rw [List.prefix_nil.mp hls]
    exact .inr rfl

/-- One run after another. -/
theorem rise_append : rise step effect s (is ++ js)
    = rise step effect s is + rise step effect (run step s is) js := by
  induction is generalizing s with
  | nil => exact (zero_add _).symm
  | cons i is ih =>
    rw [List.cons_append, rise, rise, ih, run_cons, add_assoc]

/-- Nothing happens. -/
theorem balanced_nil (s : σ) : Balanced step effect s [] := by
  refine ⟨rfl, fun js hjs => ?_⟩
  rw [List.prefix_nil.mp hjs, rise]

/-- One balanced run after another. -/
theorem Balanced.append (h : Balanced step effect s is)
    (k : Balanced step effect (run step s is) js) : Balanced step effect s (is ++ js) := by
  refine ⟨by rw [rise_append, h.1, k.1, add_zero], fun ks hks => ?_⟩
  -- a part of the first, or the first and a part of the second
  obtain hpre | ⟨ls, rfl, hls⟩ := isPrefix_append_cases hks
  · exact h.2 ks hpre
  · rw [rise_append, h.1, zero_add]
    exact k.2 ls hls

/-- A step that leaves the stack alone. -/
theorem balanced_stay {i : ι} (h : effect s i = .stay) : Balanced step effect s [i] := by
  have hrise : rise step effect s [i] = 0 := by rw [rise, rise, h, Effect.rise, add_zero]
  refine ⟨hrise, fun js hjs => ?_⟩
  obtain rfl | rfl := isPrefix_singleton_cases hjs
  · exact le_refl 0
  · exact hrise.ge

/-- **A push, a balanced run and a pop** are balanced. -/
theorem Balanced.bracket {i j : ι} {a : α} (hpush : effect s i = .push a)
    (h : Balanced step effect (step s i) is) (hpop : effect (run step (step s i) is) j = .pop) :
    Balanced step effect s (i :: is ++ [j]) := by
  have hlast : rise step effect (run step (step s i) is) [j] = -1 := by
    rw [rise, rise, hpop, Effect.rise, add_zero]
  refine ⟨?_, fun ks hks => ?_⟩
  · rw [List.cons_append, rise, rise_append, h.1, hlast, hpush, Effect.rise]
    rfl
  · cases ks with
    | nil => exact le_refl 0
    | cons k ks =>
      rw [List.cons_append, List.cons_prefix_cons] at hks
      obtain ⟨rfl, hks⟩ := hks
      rw [rise, hpush, Effect.rise]
      -- a part ends inside the brackets, or takes the last one in
      obtain hpre | ⟨ls, rfl, hls⟩ := isPrefix_append_cases hks
      · have := h.2 ks hpre
        omega
      · rw [rise_append, h.1]
        obtain rfl | rfl := isPrefix_singleton_cases hls
        · rw [rise]
          decide
        · rw [hlast]
          decide

variable {stack : σ → List α}

/-- **What lies on top was pushed by the push that matches**, and below it lies what lay there
then. -/
theorem Stacked.top (hst : Stacked step stack effect) (hs : stack s = []) {a : α} {rest : List α}
    (h : stack (run step s is) = a :: rest) :
    ∃ pre i mid, is = pre ++ i :: mid ∧ effect (run step s pre) i = .push a ∧
      stack (run step s pre) = rest ∧ Balanced step effect (run step s (pre ++ [i])) mid := by
  -- on the length: what lies below the top is looked for in the part before its push
  induction hn : is.length using Nat.strong_induction_on generalizing is a rest with
  | _ n ih =>
    obtain rfl | ⟨is, i, rfl⟩ := List.eq_nil_or_concat is
    · rw [run_nil, hs] at h
      cases h
    · rw [List.concat_eq_append] at h hn
      rw [List.length_append, List.length_singleton] at hn
      rw [run_append, run_cons, run_nil] at h
      have hdoes := hst (run step s is) i
      cases heff : effect (run step s is) i with
      | push b =>
        rw [heff, Effect.Does, h] at hdoes
        obtain ⟨rfl, rfl⟩ := List.cons.inj hdoes
        exact ⟨is, i, [], List.concat_eq_append, heff, rfl, balanced_nil _⟩
      | stay =>
        rw [heff, Effect.Does, h] at hdoes
        obtain ⟨pre, j, mid, rfl, hpush, hrest, hbal⟩ := ih is.length (by omega) hdoes.symm rfl
        refine ⟨pre, j, mid ++ [i], by simp, hpush, hrest, hbal.append (balanced_stay ?_)⟩
        rw [← run_append, List.append_assoc]
        exact heff
      | pop =>
        rw [heff] at hdoes
        obtain ⟨b, hb⟩ := hdoes
        rw [h] at hb
        obtain ⟨pre, j, mid, rfl, hpush, hrest, hbal⟩ := ih is.length (by omega) hb rfl
        -- under what was taken off
        have hlen : pre.length < n := by
          rw [List.length_append, List.length_cons] at hn
          omega
        obtain ⟨pre', k, mid', rfl, hpush', hrest', hbal'⟩ := ih pre.length hlen hrest rfl
        refine ⟨pre', k, mid' ++ (j :: mid ++ [i]), by simp, hpush', hrest', hbal'.append ?_⟩
        rw [← run_append, List.append_assoc, List.singleton_append]
        refine Balanced.bracket hpush ?_ ?_
        · rw [run_append, run_cons, run_nil] at hbal
          exact hbal
        · rw [run_append, run_cons] at heff
          exact heff

end Thicket.Runs
