import Mathlib.Logic.Basic

/-! # Programs that talk to a device

A driver is a sequential program whose only effects are requests to a device: bus accesses, file
operations. `Prog ρ β α` is such a program, requests in `ρ`, the answer to `r` in `β r`, a result
in `α`. How the device answers, and where the run is cut, is chosen outside the program by a
script, which is where failures and power loss come in. `Wp` is the matching program logic: a
precondition under which a crash invariant holds wherever a permitted script cuts the run, and a
postcondition where it does not. `Always` is the logic for a run against an arbitrary device: it
speaks about all that was asked and answered. -/

namespace Thicket

universe u v w

/-- A program that asks requests `r : ρ`, each answered in `β r`, and returns an `α`. -/
inductive Prog (ρ : Type u) (β : ρ → Type v) (α : Type w) where
  /-- The program has returned. -/
  | done (a : α)
  /-- The program waits for the answer to a request. -/
  | ask (r : ρ) (k : β r → Prog ρ β α)

namespace Prog

variable {ρ : Type u} {β : ρ → Type v} {α γ : Type w} {σ κ : Type*}

/-- Sequential composition. -/
def bind : Prog ρ β α → (α → Prog ρ β γ) → Prog ρ β γ
  | .done a, f => f a
  | .ask r k, f => .ask r fun b => (k b).bind f

instance : Monad (Prog.{u, v, w} ρ β) where
  pure := .done
  bind := bind

@[simp] theorem pure_eq (a : α) : (pure a : Prog ρ β α) = .done a := rfl

@[simp] theorem done_bind (a : α) (f : α → Prog ρ β γ) : (Prog.done a >>= f) = f a := rfl

@[simp] theorem ask_bind (r : ρ) (k : β r → Prog ρ β α) (f : α → Prog ρ β γ) :
    (Prog.ask r k >>= f) = .ask r fun b => k b >>= f := rfl

/-! ## Execution -/

variable (handle : (r : ρ) → κ → σ → β r × σ)

/-- **Scripted execution.** The device handles each request with the next choice of the script; a
script that ends before the program does cuts the run there, with no result. -/
def exec : List κ → σ → Prog ρ β α → Option α × σ
  | _, s, .done a => (some a, s)
  | [], s, .ask _ _ => (none, s)
  | c :: cs, s, .ask r k => exec cs (handle r c s).2 (k (handle r c s).1)

@[simp] theorem exec_done (cs : List κ) (s : σ) (a : α) :
    exec (β := β) handle cs s (.done a) = (some a, s) := by
  cases cs <;> rfl

@[simp] theorem exec_nil_ask (s : σ) (r : ρ) (k : β r → Prog ρ β α) :
    exec handle [] s (.ask r k) = (none, s) := rfl

@[simp] theorem exec_cons_ask (c : κ) (cs : List κ) (s : σ) (r : ρ) (k : β r → Prog ρ β α) :
    exec handle (c :: cs) s (.ask r k)
      = exec handle cs (handle r c s).2 (k (handle r c s).1) := rfl

/-- A script without entries changes nothing. -/
@[simp] theorem exec_nil_state (s : σ) (p : Prog ρ β α) : (exec handle [] s p).2 = s := by
  cases p <;> rfl

/-- A script that lets the program return may go on. -/
theorem exec_append {cs : List κ} {s : σ} {p : Prog ρ β α} {a : α}
    (h : (exec handle cs s p).1 = some a) (ds : List κ) :
    exec handle (cs ++ ds) s p = exec handle cs s p := by
  induction cs generalizing s p with
  | nil =>
    cases p with
    | done b => rw [exec_done, exec_done]
    | ask r k => cases h
  | cons c cs ih =>
    cases p with
    | done b => rw [exec_done, exec_done]
    | ask r k => exact ih h

/-- Every choice the run uses up meets `ok` for the request it answers. -/
def ScriptMeets (ok : ρ → κ → Prop) : List κ → σ → Prog ρ β α → Prop
  | c :: cs, s, .ask r k => ok r c ∧ ScriptMeets ok cs (handle r c s).2 (k (handle r c s).1)
  | _, _, _ => True

/-- A script whose every choice is permitted for every request meets the condition. -/
theorem scriptMeets_of_forall {ok : ρ → κ → Prop} {cs : List κ} (h : ∀ c ∈ cs, ∀ r, ok r c)
    (s : σ) (p : Prog ρ β α) : ScriptMeets handle ok cs s p := by
  induction cs generalizing s p with
  | nil => cases p <;> trivial
  | cons c cs ih =>
    cases p with
    | done a => trivial
    | ask r k => exact ⟨h c (by simp) r, ih (fun c hc => h c (by simp [hc])) _ _⟩

/-! ## Conversations -/

/-- One request with the answer it got. -/
abbrev Access (ρ : Type u) (β : ρ → Type v) : Type (max u v) := (r : ρ) × β r

/-- **Against an arbitrary device**: every answer may depend on everything said before. What the
program asked and was answered, oldest first, and its result. -/
def converse (answer : List (Access ρ β) → (r : ρ) → β r) :
    List (Access ρ β) → Prog ρ β α → List (Access ρ β) × α
  | _, .done a => ([], a)
  | said, .ask r k =>
      let reply := answer said r
      let rest := converse answer (said ++ [⟨r, reply⟩]) (k reply)
      (⟨r, reply⟩ :: rest.1, rest.2)

/-- Whatever the device answers, the accesses and the result satisfy `Q`. -/
def Always : (List (Access ρ β) → α → Prop) → Prog ρ β α → Prop
  | Q, .done a => Q [] a
  | Q, .ask r k => ∀ b, Always (fun said a => Q (⟨r, b⟩ :: said) a) (k b)

@[simp] theorem always_done {Q : List (Access ρ β) → α → Prop} {a : α} :
    Always Q (.done a) ↔ Q [] a := Iff.rfl

@[simp] theorem always_ask {Q : List (Access ρ β) → α → Prop} {r : ρ} {k : β r → Prog ρ β α} :
    Always Q (.ask r k) ↔ ∀ b, Always (fun said a => Q (⟨r, b⟩ :: said) a) (k b) := Iff.rfl

/-- Weakening what is known of every conversation. -/
theorem Always.mono {Q Q' : List (Access ρ β) → α → Prop} {p : Prog ρ β α} (h : Always Q p)
    (hQ : ∀ said a, Q said a → Q' said a) : Always Q' p := by
  induction p generalizing Q Q' with
  | done a => exact hQ [] a h
  | ask r k ih => exact fun b => ih b (h b) fun said a => hQ (⟨r, b⟩ :: said) a

/-- **Soundness**: what holds of every conversation holds of the one with this device. -/
theorem Always.converse {Q : List (Access ρ β) → α → Prop} {p : Prog ρ β α} (h : Always Q p)
    (answer : List (Access ρ β) → (r : ρ) → β r) (said : List (Access ρ β)) :
    Q (Prog.converse answer said p).1 (Prog.converse answer said p).2 := by
  induction p generalizing Q said with
  | done a => exact h
  | ask r k ih => exact ih (answer said r) (h _) _

/-! ## The logic -/

variable (ok : ρ → κ → Prop) (Inv : σ → Prop)

/-- **Weakest precondition with a crash invariant**: before the first request, between any two and
at the end the state satisfies `Inv`, whatever permitted answers come back, and a result satisfies
`Q`. -/
def Wp (Q : α → σ → Prop) : Prog ρ β α → σ → Prop
  | .done a, s => Inv s ∧ Q a s
  | .ask r k, s => Inv s ∧ ∀ c, ok r c → Wp Q (k (handle r c s).1) (handle r c s).2

variable {handle ok Inv}

@[simp] theorem wp_done {Q : α → σ → Prop} {a : α} {s : σ} :
    Wp (β := β) handle ok Inv Q (.done a) s ↔ Inv s ∧ Q a s := Iff.rfl

@[simp] theorem wp_ask {Q : α → σ → Prop} {r : ρ} {k : β r → Prog ρ β α} {s : σ} :
    Wp handle ok Inv Q (.ask r k) s ↔
      Inv s ∧ ∀ c, ok r c → Wp handle ok Inv Q (k (handle r c s).1) (handle r c s).2 := Iff.rfl

/-- Sequencing: what the first program establishes is the precondition of the second. -/
theorem Wp.bind {Q : γ → σ → Prop} {p : Prog ρ β α} {f : α → Prog ρ β γ} {s : σ}
    (h : Wp handle ok Inv (fun a t => Wp handle ok Inv Q (f a) t) p s) :
    Wp handle ok Inv Q (p >>= f) s := by
  induction p generalizing s with
  | done a => exact h.2
  | ask r k ih => exact ⟨h.1, fun c hc => ih _ (h.2 c hc)⟩

/-- Weakening the postcondition. -/
theorem Wp.mono {Q Q' : α → σ → Prop} {p : Prog ρ β α} {s : σ}
    (h : Wp handle ok Inv Q p s) (hQ : ∀ a t, Inv t → Q a t → Q' a t) :
    Wp handle ok Inv Q' p s := by
  induction p generalizing s with
  | done a => exact ⟨h.1, hQ a s h.1 h.2⟩
  | ask r k ih => exact ⟨h.1, fun c hc => ih _ (h.2 c hc)⟩

/-- **Soundness.** Wherever a permitted script cuts the run the crash invariant holds, and a
result satisfies the postcondition. -/
theorem Wp.sound {Q : α → σ → Prop} {p : Prog ρ β α} {s : σ} (h : Wp handle ok Inv Q p s)
    {cs : List κ} (hcs : ScriptMeets handle ok cs s p) :
    Inv (exec handle cs s p).2 ∧
      ∀ a, (exec handle cs s p).1 = some a → Q a (exec handle cs s p).2 := by
  induction cs generalizing s p with
  | nil =>
    cases p with
    | done a =>
      rw [exec_done]
      exact ⟨h.1, fun b hb => by cases hb; exact h.2⟩
    | ask r k => exact ⟨h.1, fun b hb => by cases hb⟩
  | cons c cs ih =>
    cases p with
    | done a =>
      rw [exec_done]
      exact ⟨h.1, fun b hb => by cases hb; exact h.2⟩
    | ask r k =>
      rw [exec_cons_ask]
      -- the answer is permitted, so the rest of the program keeps its own promise
      exact ih (h.2 c hcs.1) hcs.2

end Prog

end Thicket
