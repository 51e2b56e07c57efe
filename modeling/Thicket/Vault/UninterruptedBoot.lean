import Thicket.Vault.AttemptLimit

/-! # What one boot does when the power stays on

The closed form of a boot whose six file operations at most all take place, case by case: locked
out, refused, destroyed, opened, sealed. The rules over whole histories are built on these. -/

namespace Thicket.Vault

open Runs Prog

variable {I : Type} {P : Primitives} {A : IdentityApi I}

/-- A boot performs at most six file operations; this is the script on which all take place and
every write goes through. -/
def fullScript : List Bool := List.replicate 6 true

/-- The boot on a device whose power stays on and whose writes go through. -/
def Boot.full (b : Boot I) : PoweredBoot I := b.powered fullScript

variable (P A) in
/-- The result and the world of an uninterrupted boot. -/
def fullBoot (w : World) (b : Boot I) : Option (Option I) × World :=
  exec (World.handle P b.code) fullScript w (bringupIdentity P A b)

theorem bootStep_full (w : World) (b : Boot I) :
    bootStep P A w b.full = (fullBoot P A w b).2 := rfl

/-- With a vault on flash, an uninterrupted boot is one attempt at it. -/
theorem fullBoot_of_vault {w : World} {b : Boot I} {file : Bytes}
    (hid : w.flash.identity = some file) :
    ∃ cs, fullBoot P A w b = exec (World.handle P b.code) (true :: true :: true :: cs) w
      (vaultAttempt P A b.code w.flash.triesValue) := by
  unfold fullBoot
  rw [bringupIdentity_eq, vaultOpen_eq, vaultTriesRead_eq]
  cases htries : w.flash.tries with
  | none =>
    refine ⟨[true], ?_⟩
    simp [fullScript, List.replicate, World.handle, Flash.handle, Flash.get, Ledger.note, hid,
      htries, Flash.triesValue]
  | some t =>
    refine ⟨[], ?_⟩
    simp [fullScript, List.replicate, World.handle, Flash.handle, Flash.get, Ledger.note, hid,
      htries, Flash.triesValue]

/-- **Locked out**: with the counter at the limit, nothing on flash changes. -/
theorem fullBoot_of_locked {w : World} {b : Boot I} {file : Bytes}
    (hid : w.flash.identity = some file) (hlock : w.flash.triesValue ≥ vaultMaxTries) :
    fullBoot P A w b = (some none, w) := by
  obtain ⟨cs, hboot⟩ := fullBoot_of_vault (P := P) (A := A) (b := b) hid
  rw [hboot, vaultAttempt, if_pos hlock, exec_done]

/-- The world after an attempt that charged one more try and evaluated the code. -/
def World.tried (w : World) (tries : Option Bytes) (identity : Option Bytes) (opened : Bool) :
    World :=
  { flash := { identity := identity, tries := tries }
    ledger := { w.ledger with
      guesses := w.ledger.window + 1, opened := opened, triesGen := w.ledger.vaultGen } }

/-- **Refused**: a code that does not open the vault costs one try, the tenth costs the vault. -/
theorem fullBoot_of_refused {w : World} {b : Boot I} {file : Bytes}
    (hid : w.flash.identity = some file) (hroom : ¬ w.flash.triesValue ≥ vaultMaxTries)
    (hopen : passwordOpen P b.code file identityPrvBytes = none) :
    fullBoot P A w b = (some none, w.tried (some [w.flash.triesValue + 1])
      (if vaultMaxTries - w.flash.triesValue - 1 = 0 then none else some file) false) := by
  obtain ⟨cs, hboot⟩ := fullBoot_of_vault (P := P) (A := A) (b := b) hid
  rw [hboot, vaultAttempt, if_neg hroom]
  simp only [exec_cons_ask, World.handle, Flash.handle, Flash.get, Flash.set, Ledger.note, hid,
    Option.getD_some, hopen]
  by_cases hlast : vaultMaxTries - w.flash.triesValue - 1 = 0
  · rw [if_pos hlast, if_pos hlast, exec_cons_ask]
    simp [World.handle, Flash.handle, Flash.set, Ledger.note, Ledger.window, World.tried]
  · rw [if_neg hlast, if_neg hlast, exec_done]
    simp [Ledger.window, World.tried]

/-- **Opened**: a code that opens the vault and gives a loadable key clears the counter. -/
theorem fullBoot_of_opened {w : World} {b : Boot I} {file prv : Bytes} {i : I}
    (hid : w.flash.identity = some file) (hroom : ¬ w.flash.triesValue ≥ vaultMaxTries)
    (hopen : passwordOpen P b.code file identityPrvBytes = some prv)
    (hload : A.loadPrivateKey prv = some i) :
    fullBoot P A w b = (some (some i), w.tried none (some file) true) := by
  obtain ⟨cs, hboot⟩ := fullBoot_of_vault (P := P) (A := A) (b := b) hid
  rw [hboot, vaultAttempt, if_neg hroom]
  simp [World.handle, Flash.handle, Flash.get, Flash.set, Ledger.note, hid, hopen, hload,
    Ledger.window, World.tried]

/-- **Opened, not loadable**: the code opens the vault and the key does not load; the try stays
charged. -/
theorem fullBoot_of_not_loaded {w : World} {b : Boot I} {file prv : Bytes}
    (hid : w.flash.identity = some file) (hroom : ¬ w.flash.triesValue ≥ vaultMaxTries)
    (hopen : passwordOpen P b.code file identityPrvBytes = some prv)
    (hload : A.loadPrivateKey prv = none) :
    fullBoot P A w b
      = (some none, w.tried (some [w.flash.triesValue + 1]) (some file) true) := by
  obtain ⟨cs, hboot⟩ := fullBoot_of_vault (P := P) (A := A) (b := b) hid
  rw [hboot, vaultAttempt, if_neg hroom]
  simp [World.handle, Flash.handle, Flash.get, Flash.set, Ledger.note, hid, hopen, hload,
    Ledger.window, World.tried]

/-- The world after a fresh vault has been sealed. -/
def World.sealed (w : World) (file : Bytes) : World :=
  { flash := { w.flash with identity := some file }
    ledger := { w.ledger with
      guesses := 0, opened := false, vaultGen := w.ledger.vaultGen + 1 } }

/-- **Sealed**: without a vault, a generated identity is sealed under the boot's code. -/
theorem fullBoot_of_sealed {w : World} {b : Boot I} {i : I} (hid : w.flash.identity = none)
    (hgen : b.generated = some i) :
    fullBoot P A w b = (some (some i), w.sealed (b.vault P A i)) := by
  unfold fullBoot
  rw [bringupIdentity_eq]
  simp [fullScript, List.replicate, World.handle, Flash.handle, Flash.get, Flash.set, Ledger.note,
    hid, hgen, World.sealed, Boot.vault]

/-- Without a vault and without an identity, nothing on flash changes. -/
theorem fullBoot_of_not_generated {w : World} {b : Boot I} (hid : w.flash.identity = none)
    (hgen : b.generated = none) : fullBoot P A w b = (some none, w) := by
  unfold fullBoot
  rw [bringupIdentity_eq]
  simp [fullScript, List.replicate, World.handle, Flash.handle, Flash.get, Ledger.note, hid, hgen]

/-- **Six file operations are enough**: an uninterrupted boot returns. -/
theorem fullBoot_returns (w : World) (b : Boot I) : ∃ r, (fullBoot P A w b).1 = some r := by
  cases hid : w.flash.identity with
  | none =>
    cases hgen : b.generated with
    | none => exact ⟨none, by rw [fullBoot_of_not_generated hid hgen]⟩
    | some i => exact ⟨some i, by rw [fullBoot_of_sealed hid hgen]⟩
  | some file =>
    by_cases hlock : w.flash.triesValue ≥ vaultMaxTries
    · exact ⟨none, by rw [fullBoot_of_locked hid hlock]⟩
    · cases hopen : passwordOpen P b.code file identityPrvBytes with
      | none => exact ⟨none, by rw [fullBoot_of_refused hid hlock hopen]⟩
      | some prv =>
        cases hload : A.loadPrivateKey prv with
        | none => exact ⟨none, by rw [fullBoot_of_not_loaded hid hlock hopen hload]⟩
        | some i => exact ⟨some i, by rw [fullBoot_of_opened hid hlock hopen hload]⟩

end Thicket.Vault
