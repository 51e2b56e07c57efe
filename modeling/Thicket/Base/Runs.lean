import Mathlib.Data.List.Basic
import Mathlib.Data.List.Infix

/-! # Runs of a deterministic machine

A machine is a step function `σ → ι → σ`; whatever is not determined (a crash, a lost message,
the order of two events) is part of the input alphabet `ι`. `run` folds the step over a list of
inputs, `Along` says that every step taken meets a condition on the state it starts from, and
the rules below carry invariants and simulations from one step to a whole run. -/

namespace Thicket.Runs

variable {σ τ ι κ : Type*}

/-- Feed a list of inputs to the machine, oldest first. -/
def run (step : σ → ι → σ) (s : σ) (is : List ι) : σ := is.foldl step s

variable (step : σ → ι → σ)

@[simp] theorem run_nil (s : σ) : run step s [] = s := rfl

@[simp] theorem run_cons (s : σ) (i : ι) (is : List ι) :
    run step s (i :: is) = run step (step s i) is := rfl

@[simp] theorem run_append (s : σ) (is js : List ι) :
    run step s (is ++ js) = run step (run step s is) js := List.foldl_append

/-- Every step of the run from `s` over the inputs meets `ok` in the state it starts from. -/
def Along (ok : σ → ι → Prop) : σ → List ι → Prop
  | _, [] => True
  | s, i :: is => ok s i ∧ Along ok (step s i) is

/-- What the steps of a run put out, each in the state it starts from. -/
def outputs (out : σ → ι → List κ) : σ → List ι → List κ
  | _, [] => []
  | s, i :: is => out s i ++ outputs out (step s i) is

@[simp] theorem outputs_nil (out : σ → ι → List κ) (s : σ) : outputs step out s [] = [] := rfl

@[simp] theorem outputs_cons (out : σ → ι → List κ) (s : σ) (i : ι) (is : List ι) :
    outputs step out s (i :: is) = out s i ++ outputs step out (step s i) is := rfl

/-- The outputs of a run are those of its first part, then those of the rest from where it
ended. -/
@[simp] theorem outputs_append (out : σ → ι → List κ) (s : σ) (is js : List ι) :
    outputs step out s (is ++ js)
      = outputs step out s is ++ outputs step out (run step s is) js := by
  induction is generalizing s with
  | nil => rfl
  | cons i is ih => simp [ih]

/-- What every step puts out meets `P`, so all that a run puts out does. -/
theorem forall_mem_outputs {out : σ → ι → List κ} {P : κ → Prop} (h : ∀ s i, ∀ k ∈ out s i, P k)
    (s : σ) (is : List ι) : ∀ k ∈ outputs step out s is, P k := by
  induction is generalizing s with
  | nil => exact fun _ hk => nomatch hk
  | cons i is ih =>
    rw [outputs_cons, List.forall_mem_append]
    exact ⟨h s i, ih (step s i)⟩

variable {step} {ok : σ → ι → Prop}

@[simp] theorem along_nil (s : σ) : Along step ok s [] := trivial

@[simp] theorem along_cons {s : σ} {i : ι} {is : List ι} :
    Along step ok s (i :: is) ↔ ok s i ∧ Along step ok (step s i) is := Iff.rfl

/-- A condition holds along a concatenation iff it holds along both parts. -/
@[simp] theorem along_append {s : σ} {is js : List ι} :
    Along step ok s (is ++ js) ↔ Along step ok s is ∧ Along step ok (run step s is) js := by
  induction is generalizing s with
  | nil => simp
  | cons i is ih => simp [ih, and_assoc]

/-- `Along` is decidable for a decidable condition, so concrete runs can be evaluated. -/
instance instDecidableAlong [∀ s i, Decidable (ok s i)] :
    ∀ (s : σ) (is : List ι), Decidable (Along step ok s is)
  | _, [] => isTrue trivial
  | s, i :: is =>
      haveI := instDecidableAlong (step s i) is
      inferInstanceAs (Decidable (ok s i ∧ Along step ok (step s i) is))

/-- Some step of the run from `s` over the inputs meets `p` in the state it starts from. -/
def Sometime (step : σ → ι → σ) (p : σ → ι → Prop) (s : σ) (is : List ι) : Prop :=
  ∃ pre i post, is = pre ++ i :: post ∧ p (run step s pre) i

/-- A condition that holds along a run holds along each of its prefixes. -/
theorem Along.of_isPrefix {s : σ} {is js : List ι} (h : Along step ok s js) (hp : is <+: js) :
    Along step ok s is := by
  obtain ⟨rest, rfl⟩ := hp
  exact (along_append.mp h).1

/-- Conditions that agree on the inputs of a run agree along it. -/
theorem along_congr {ok' : σ → ι → Prop} {is : List ι}
    (h : ∀ s, ∀ i ∈ is, (ok s i ↔ ok' s i)) (s : σ) :
    Along step ok s is ↔ Along step ok' s is := by
  induction is generalizing s with
  | nil => exact Iff.rfl
  | cons i is ih =>
    exact and_congr (h s i List.mem_cons_self)
      (ih (fun s j hj => h s j (List.mem_cons_of_mem i hj)) (step s i))

/-- A weaker condition holds along a run as well. -/
theorem Along.mono {ok' : σ → ι → Prop} {s : σ} {is : List ι} (h : Along step ok s is)
    (hle : ∀ s i, ok s i → ok' s i) : Along step ok' s is := by
  induction is generalizing s with
  | nil => trivial
  | cons i is ih => exact ⟨hle s i h.1, ih h.2⟩

/-- A condition that the inputs meet in every state holds along every run. -/
theorem along_of_forall {is : List ι} (h : ∀ s, ∀ i ∈ is, ok s i) (s : σ) :
    Along step ok s is := by
  induction is generalizing s with
  | nil => trivial
  | cons i is ih =>
    exact ⟨h s i List.mem_cons_self, ih (fun s j hj => h s j (List.mem_cons_of_mem i hj)) _⟩

/-- A condition that an invariant implies holds along every run from where the invariant does. -/
theorem along_of_invariant (Inv : σ → Prop) (hstep : ∀ s i, Inv s → Inv (step s i))
    (h : ∀ s i, Inv s → ok s i) {s : σ} (hs : Inv s) (is : List ι) : Along step ok s is := by
  induction is generalizing s with
  | nil => trivial
  | cons i is ih => exact ⟨h s i hs, ih (hstep s i hs)⟩

/-- A condition that no step changes holds along a run iff every input meets it at the start. -/
theorem along_iff_forall (h : ∀ s i j, ok (step s i) j ↔ ok s j) {s : σ} {is : List ι} :
    Along step ok s is ↔ ∀ i ∈ is, ok s i := by
  induction is generalizing s with
  | nil => simp
  | cons i is ih =>
    rw [along_cons, ih, List.forall_mem_cons]
    exact and_congr_right fun _ => forall₂_congr fun j _ => h s i j

/-- **Invariant rule.** What the start satisfies and every permitted step preserves holds at the
end of a permitted run. -/
theorem Along.invariant (Inv : σ → Prop)
    (hstep : ∀ s i, Inv s → ok s i → Inv (step s i)) {s : σ} {is : List ι}
    (h : Along step ok s is) (hs : Inv s) : Inv (run step s is) := by
  induction is generalizing s with
  | nil => exact hs
  | cons i is ih => exact ih h.2 (hstep s i hs h.1)

/-- **Invariant rule, unconditional.** What the start satisfies and every step preserves holds at
the end of every run. -/
theorem run_invariant (Inv : σ → Prop) (hstep : ∀ s i, Inv s → Inv (step s i)) {s : σ}
    (hs : Inv s) (is : List ι) : Inv (run step s is) := by
  induction is generalizing s with
  | nil => exact hs
  | cons i is ih => exact ih (hstep s i hs)

/-- **Preorder rule.** A reflexive and transitive relation that every step keeps relates the ends
of every run. -/
theorem run_rel (R : σ → σ → Prop) (hrefl : ∀ s, R s s)
    (htrans : ∀ {s t u}, R s t → R t u → R s u) (hstep : ∀ s i, R s (step s i)) (s : σ)
    (is : List ι) : R s (run step s is) := by
  induction is generalizing s with
  | nil => exact hrefl s
  | cons i is ih => exact htrans (hstep s i) (ih (step s i))

/-- **Preorder rule**, for steps on the inputs of a run. -/
theorem run_rel_of_mem (R : σ → σ → Prop) (hrefl : ∀ s, R s s)
    (htrans : ∀ {s t u}, R s t → R t u → R s u) {is : List ι}
    (hstep : ∀ s, ∀ i ∈ is, R s (step s i)) (s : σ) : R s (run step s is) := by
  induction is generalizing s with
  | nil => exact hrefl s
  | cons i is ih =>
    exact htrans (hstep s i List.mem_cons_self)
      (ih (fun s j hj => hstep s j (List.mem_cons_of_mem i hj)) (step s i))

/-- Machines that agree on the inputs of a run end in the same state. -/
theorem run_congr {step' : σ → ι → σ} {is : List ι} (h : ∀ s, ∀ i ∈ is, step s i = step' s i)
    (s : σ) : run step s is = run step' s is := by
  induction is generalizing s with
  | nil => rfl
  | cons i is ih =>
    rw [run_cons, run_cons, h s i List.mem_cons_self,
      ih fun s j hj => h s j (List.mem_cons_of_mem i hj)]

/-- A run along which a condition fails has a first step that breaks it. -/
theorem exists_first_of_not_along {s : σ} {is : List ι} (h : ¬ Along step ok s is) :
    ∃ pre i, pre ++ [i] <+: is ∧ Along step ok s pre ∧ ¬ ok (run step s pre) i := by
  induction is generalizing s with
  | nil => exact absurd trivial h
  | cons i is ih =>
    by_cases hi : ok s i
    · obtain ⟨pre, j, hp, halong, hj⟩ := ih fun hrest => h ⟨hi, hrest⟩
      exact ⟨i :: pre, j, List.cons_prefix_cons.mpr ⟨rfl, hp⟩, ⟨hi, halong⟩, hj⟩
    · exact ⟨[], i, ⟨is, rfl⟩, trivial, hi⟩

/-- **Exactness rule.** When the condition keeps an invariant that makes every state good, and a
step that breaks the condition ends in a state that is not, all states of a run are good exactly
when the condition holds along it. -/
theorem forall_prefix_iff_along (Inv Good : σ → Prop) (hgood : ∀ s, Inv s → Good s)
    (hstep : ∀ s i, Inv s → ok s i → Inv (step s i))
    (hbad : ∀ s i, Inv s → ¬ ok s i → ¬ Good (step s i)) {s : σ} (hs : Inv s) (is : List ι) :
    (∀ pre, pre <+: is → Good (run step s pre)) ↔ Along step ok s is := by
  constructor
  · intro hall
    induction is generalizing s with
    | nil => trivial
    | cons i is ih =>
      have hi : ok s i := by
        by_contra hno
        exact hbad s i hs hno (hall [i] ⟨is, rfl⟩)
      refine ⟨hi, ih (hstep s i hs hi) fun pre hp => ?_⟩
      exact hall (i :: pre) (List.cons_prefix_cons.mpr ⟨rfl, hp⟩)
  · intro halong pre hp
    exact hgood _ ((halong.of_isPrefix hp).invariant Inv hstep hs)

/-- **Simulation rule.** A relation that permitted steps of the first machine and the matching
steps of the second preserve relates the ends of matching runs. -/
theorem Along.simulation {step' : τ → κ → τ} (f : ι → κ) (R : σ → τ → Prop)
    (hstep : ∀ s t i, R s t → ok s i → R (step s i) (step' t (f i))) {s : σ} {t : τ}
    {is : List ι} (h : Along step ok s is) (hst : R s t) :
    R (run step s is) (run step' t (is.map f)) := by
  induction is generalizing s t with
  | nil => exact hst
  | cons i is ih => exact ih h.2 (hstep s t i hst h.1)

/-- **Simulation rule for outputs.** Machines in states that put out the same, and whose matching
steps keep them so, put out the same along matching runs. -/
theorem outputs_simulation {step' : τ → ι → τ} {out : σ → ι → List κ} {out' : τ → ι → List κ}
    (R : σ → τ → Prop) (hstep : ∀ s t i, R s t → R (step s i) (step' t i))
    (hout : ∀ s t i, R s t → out s i = out' t i) {s : σ} {t : τ} (hst : R s t) (is : List ι) :
    outputs step out s is = outputs step' out' t is := by
  induction is generalizing s t with
  | nil => rfl
  | cons i is ih => rw [outputs_cons, outputs_cons, hout s t i hst, ih (hstep s t i hst)]

/-- **Simulation rule, unconditional.** A relation that matching steps of two machines preserve
relates the ends of matching runs. -/
theorem run_simulation {step' : τ → ι → τ} (R : σ → τ → Prop)
    (hstep : ∀ s t i, R s t → R (step s i) (step' t i)) {s : σ} {t : τ} (hst : R s t)
    (is : List ι) : R (run step s is) (run step' t is) := by
  induction is generalizing s t with
  | nil => exact hst
  | cons i is ih => exact ih (hstep s t i hst)

end Thicket.Runs
