import Thicket.Base.Runs
import Thicket.Vault.Bringup

/-! # At most ten guesses per vault

A device is booted again and again, the power cut between any two file operations. Next to the
flash a ledger counts what the flash cannot be trusted to count: how often `password_open` has been
evaluated against the vault since it was sealed or last opened. The counter file stays at or above
that number as long as its writes go through; their result is discarded, so a write that fails
hands back the guess it should have charged. -/

namespace Thicket.Vault

open Runs Prog

/-- What has really happened to the vault on flash. -/
structure Ledger where
  /-- Evaluations of `password_open` against this vault since it was sealed or last opened, the
  latest included. -/
  guesses : Nat := 0
  /-- The latest evaluation opened it. -/
  opened : Bool := false
  /-- How many vaults have been sealed. -/
  vaultGen : Nat := 0
  /-- The vault the counter file was last written for. -/
  triesGen : Nat := 0
  deriving DecidableEq

variable {I : Type} (P : Primitives) (A : IdentityApi I)

namespace Ledger

/-- The guesses a further evaluation would add to: none once the vault has been opened. -/
def window (l : Ledger) : Nat := if l.opened then 0 else l.guesses

/-- Book one file operation of a boot presenting `code`. Only `password_open` reads the vault, only
`vault_seal` writes it. -/
def note (l : Ledger) (code : Bytes) (f : Flash) (ok : Bool) : FileReq → Ledger
  | .readFile .identity => { l with
      guesses := l.window + 1
      opened := (passwordOpen P code (f.identity.getD []) identityPrvBytes).isSome }
  | .writeFile .identity _ =>
      if ok then { l with guesses := 0, opened := false, vaultGen := l.vaultGen + 1 } else l
  | .writeFile .tries _ => if ok then { l with triesGen := l.vaultGen } else l
  | _ => l

end Ledger

/-- The flash and the ledger. -/
structure World where
  /-- The files. -/
  flash : Flash := {}
  /-- The account of what happened to them. -/
  ledger : Ledger := {}
  deriving DecidableEq

/-- One file operation of a boot presenting `code`, booked. -/
def World.handle (code : Bytes) (r : FileReq) (ok : Bool) (w : World) : r.Resp × World :=
  ((w.flash.handle r ok).1, ⟨(w.flash.handle r ok).2, w.ledger.note P code w.flash ok r⟩)

/-- A boot and how far it gets: one entry for each file operation before the power is lost, saying
whether a write would go through. -/
structure PoweredBoot (I : Type) extends Boot I where
  /-- The file operations that take place. -/
  script : List Bool

/-- A boot and a script for it. -/
def Boot.powered (b : Boot I) (script : List Bool) : PoweredBoot I := { b with script := script }

/-- One boot, up to `bringup_identity` returning or the power being lost. -/
def bootStep (w : World) (b : PoweredBoot I) : World :=
  (exec (World.handle P b.code) b.script w (bringupIdentity P A b.toBoot)).2

@[simp] theorem Boot.powered_script (b : Boot I) (cs : List Bool) :
    (b.powered cs).script = cs := rfl

/-- One boot under a script. -/
theorem bootStep_powered (w : World) (b : Boot I) (cs : List Bool) :
    bootStep P A w (b.powered cs)
      = (exec (World.handle P b.code) cs w (bringupIdentity P A b)).2 := rfl

/-- The counter charges every guess: it is at or above the guesses in the window, and these are at
most ten. -/
structure Charged (w : World) : Prop where
  /-- The counter covers the guesses. -/
  window_le : w.ledger.window ≤ w.flash.triesValue.toNat
  /-- The limit. -/
  guesses_le : w.ledger.guesses ≤ 10

/-- A write of the counter goes through. -/
def CounterWritten (r : FileReq) (ok : Bool) : Prop :=
  match r with
  | .writeFile .tries _ => ok = true
  | _ => True

/-- Every counter write the boot performs goes through. -/
def CounterWrites (w : World) (b : PoweredBoot I) : Prop :=
  ScriptMeets (World.handle P b.code) CounterWritten b.script w (bringupIdentity P A b.toBoot)

variable {P A}

/-- Reading the counter changes nothing, and gives its value. -/
theorem wp_vaultTriesRead {code : Bytes} {ok : FileReq → Bool → Prop} {Inv : World → Prop}
    {Q : UInt8 → World → Prop} {w : World} (hinv : Inv w) (hQ : Q w.flash.triesValue w) :
    Wp (World.handle P code) ok Inv Q vaultTriesRead w := by
  rw [vaultTriesRead_eq, wp_ask]
  refine ⟨hinv, fun _ _ => ?_⟩
  simp only [World.handle, Flash.handle, Flash.get, Ledger.note]
  cases htries : w.flash.tries with
  | none => exact ⟨hinv, by simpa [Flash.triesValue, htries] using hQ⟩
  | some b =>
    refine ⟨hinv, fun _ _ => ⟨hinv, ?_⟩⟩
    simpa [World.handle, Flash.handle, Flash.get, Ledger.note, Flash.triesValue, htries] using hQ

/-- Nine or fewer tries leave room for one more. -/
theorem toNat_succ_of_lt {tried : UInt8} (h : ¬ tried ≥ vaultMaxTries) :
    (tried + 1).toNat = tried.toNat + 1 ∧ tried.toNat < 10 := by
  have hlt : tried.toNat < 10 := by
    simpa [vaultMaxTries, UInt8.le_iff_toNat_le] using h
  exact ⟨by rw [UInt8.toNat_add]; simp; omega, hlt⟩

/-- A world in which the counter reads `n`, the window holds at most `n` guesses and the latest
count is at most ten charges every guess. -/
theorem charged_of_le {w : World} {n : UInt8} (hn : w.flash.triesValue = n)
    (hwin : w.ledger.window ≤ n.toNat) (hle : w.ledger.guesses ≤ 10) : Charged w :=
  ⟨hn ▸ hwin, hle⟩

/-- An attempt charges its guess before making it. -/
theorem wp_vaultAttempt {code : Bytes} {w : World} {tried : UInt8}
    (ht : w.flash.triesValue = tried) (h : Charged w) :
    Wp (World.handle P code) CounterWritten Charged (fun _ _ => True)
      (vaultAttempt P A code tried) w := by
  have hwin : w.ledger.window ≤ tried.toNat := ht ▸ h.window_le
  unfold vaultAttempt
  split
  · exact ⟨h, trivial⟩
  next hroom =>
  obtain ⟨hsucc, hlt⟩ := toNat_succ_of_lt hroom
  refine ⟨h, fun ok hok => ?_⟩
  obtain rfl : ok = true := hok
  -- the counter now stands one above the guesses in the window, so the evaluation is covered
  refine ⟨charged_of_le (n := tried + 1) rfl (hsucc ▸ Nat.le_succ_of_le hwin) h.guesses_le,
    fun ok _ => ?_⟩
  have hguess : w.ledger.window + 1 ≤ (tried + 1).toNat := by omega
  have hten : w.ledger.window + 1 ≤ 10 := by omega
  simp only [World.handle, Flash.handle, Flash.get, Flash.set, Ledger.note]
  cases hopen : passwordOpen P code (w.flash.identity.getD []) identityPrvBytes with
  | none =>
    have hfail : ∀ f : Flash, f.triesValue = tried + 1 → Charged ⟨f, { w.ledger with
        guesses := w.ledger.window + 1, opened := false, triesGen := w.ledger.vaultGen }⟩ :=
      fun f hf => charged_of_le hf hguess hten
    dsimp only
    split
    · exact ⟨hfail _ rfl, fun _ _ => ⟨hfail _ rfl, trivial⟩⟩
    · exact ⟨hfail _ rfl, trivial⟩
  | some prv =>
    have hopened : ∀ f : Flash, Charged ⟨f, { w.ledger with
        guesses := w.ledger.window + 1, opened := true, triesGen := w.ledger.vaultGen }⟩ :=
      fun f => charged_of_le rfl (Nat.zero_le _) hten
    dsimp only
    cases A.loadPrivateKey prv with
    | none => exact ⟨hopened _, trivial⟩
    | some i => exact ⟨hopened _, fun _ _ => ⟨hopened _, trivial⟩⟩

/-- **A boot charges every guess it makes**, wherever the power is cut. -/
theorem wp_bringupIdentity {b : Boot I} {w : World} (h : Charged w) :
    Wp (World.handle P b.code) CounterWritten Charged (fun _ _ => True)
      (bringupIdentity P A b) w := by
  rw [bringupIdentity_eq]
  refine ⟨h, fun _ _ => ?_⟩
  simp only [World.handle, Flash.handle, Flash.get, Ledger.note]
  cases w.flash.identity with
  | some file =>
    dsimp only [Option.isSome_some]
    rw [vaultOpen_eq]
    exact Wp.bind (wp_vaultTriesRead h (wp_vaultAttempt rfl h))
  | none =>
    cases b.generated with
    | none => exact ⟨h, trivial⟩
    | some i =>
      refine ⟨h, fun ok _ => ⟨?_, trivial⟩⟩
      cases ok with
      | false => exact h
      | true => exact charged_of_le rfl (Nat.zero_le _) (Nat.zero_le _)

/-- **At most ten guesses per vault.** In every history of boots, the power cut anywhere and any
write allowed to fail, whose counter writes go through, `password_open` is never evaluated more
than ten times against one vault since it was sealed or last opened. -/
theorem at_most_ten_guesses (P : Primitives) (A : IdentityApi I) (history : List (PoweredBoot I))
    (h : Along (bootStep P A) (CounterWrites P A) {} history) :
    (run (bootStep P A) {} history).ledger.guesses ≤ 10 := by
  have hcharged : Charged (run (bootStep P A) {} history) :=
    h.invariant Charged (fun w b hw hok => ((wp_bringupIdentity hw).sound hok).1)
      ⟨Nat.zero_le _, Nat.zero_le _⟩
  exact hcharged.guesses_le

/-! ## A counter that cannot be written -/

/-- The world in which a vault has been tried `n` times without a counter. -/
def unpaidWorld (file : Bytes) (n : Nat) : World :=
  { flash := { identity := some file }, ledger := { guesses := n, vaultGen := 1 } }

/-- The file operations of a boot up to the evaluation of its code, the write of the counter
failing. -/
def unpaidScript : List Bool := [true, true, false, true]

/-- **A guess nothing charges.** Such a boot is booked and leaves no trace on flash. -/
theorem bootStep_unpaid {file : Bytes} {b : Boot I}
    (hopen : passwordOpen P b.code file identityPrvBytes = none) (n : Nat) :
    bootStep P A (unpaidWorld file n) (b.powered unpaidScript)
      = unpaidWorld file (n + 1) := by
  have hroom : ¬ (0 : UInt8) ≥ vaultMaxTries := by decide
  have hleft : ¬ vaultMaxTries - 0 - 1 = 0 := by decide
  rw [bootStep_powered, unpaidScript, bringupIdentity_eq, vaultOpen_eq, vaultTriesRead_eq]
  simp only [unpaidWorld, vaultAttempt, World.handle, Flash.handle, Flash.get, Ledger.note,
    exec_cons_ask, ask_bind, done_bind, Option.isSome_some, Option.isSome_none, Option.getD_some,
    if_neg hroom, hopen, if_neg hleft, exec_done]
  rfl

/-- Unpaid guesses add up. -/
theorem run_unpaid {file : Bytes} {b : Boot I}
    (hopen : passwordOpen P b.code file identityPrvBytes = none) (n k : Nat) :
    run (bootStep P A) (unpaidWorld file n) (List.replicate k (b.powered unpaidScript))
      = unpaidWorld file (n + k) := by
  induction k generalizing n with
  | zero => rfl
  | succ k ih =>
    rw [List.replicate_succ, run_cons, bootStep_unpaid hopen, ih, Nat.add_right_comm, Nat.add_assoc]

/-- A first boot leaves a vault nobody has tried. -/
theorem bootStep_first {b : Boot I} {i : I} (hgen : b.generated = some i) :
    bootStep P A {} (b.powered [true, true])
      = unpaidWorld (b.vault P A i) 0 := by
  rw [bootStep_powered, bringupIdentity_eq]
  simp only [World.handle, Flash.handle, Flash.get, Ledger.note, exec_cons_ask, hgen,
    Option.isSome_none, exec_done]
  rfl

/-- The identity of the concrete runs. -/
def sampleKey : { b : Bytes // b.length = identityPrvBytes } :=
  ⟨List.replicate identityPrvBytes 7, List.length_replicate⟩

/-- A boot of the concrete runs, which presents `code` and would generate the sample identity. -/
def sampleBoot (code : Bytes) : Boot { b : Bytes // b.length = identityPrvBytes } where
  code := code
  generated := some sampleKey
  salt := ⟨List.replicate 16 0, List.length_replicate⟩
  iv := ⟨List.replicate 16 0, List.length_replicate⟩

/-- The vault of the concrete runs: the sample identity under the code `[1]`. -/
def sampleVault : Bytes := (sampleBoot [1]).vault .transparent .ofKeys sampleKey

/-- The sample vault refuses the code `[2]`. -/
theorem sampleVault_refuses :
    passwordOpen .transparent (sampleBoot [2]).code sampleVault identityPrvBytes = none :=
  (passwordOpen_transparent _ _ _ _ _ sampleKey.2).trans (if_neg (by decide))

/-- **An eleventh guess.** When the counter cannot be written, guesses are free. -/
theorem eleven_unpaid_guesses :
    ¬ (run (bootStep .transparent .ofKeys) {} ((sampleBoot [1]).powered [true, true] ::
      List.replicate 11 ((sampleBoot [2]).powered unpaidScript))).ledger.guesses ≤ 10 := by
  rw [run_cons, bootStep_first rfl, ← sampleVault, run_unpaid sampleVault_refuses]
  simp [unpaidWorld]

/-- When no write fails, no counter write does. -/
theorem counterWrites_of_forall {w : World} {b : PoweredBoot I} (h : ∀ ok ∈ b.script, ok = true) :
    CounterWrites P A w b :=
  scriptMeets_of_forall _ (fun ok hok r => by unfold CounterWritten; split <;> simp [h ok hok]) _ _

/-- The limit along a first boot and two boots with a wrong code. -/
theorem at_most_ten_guesses_sample :
    (run (bootStep .transparent .ofKeys) {} [(sampleBoot [1]).powered [true, true],
      (sampleBoot [2]).powered (List.replicate 6 true),
      (sampleBoot [2]).powered (List.replicate 3 true)]).ledger.guesses ≤ 10 :=
  at_most_ten_guesses .transparent .ofKeys _
    ⟨counterWrites_of_forall (by simp), counterWrites_of_forall (by simp),
      counterWrites_of_forall (by simp), trivial⟩

end Thicket.Vault
