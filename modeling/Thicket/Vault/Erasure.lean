import Thicket.Vault.Reopening

/-! # The tenth wrong code erases the vault

The tenth charge is written first and the vault removed some file operations and a key stretching
later. A boot cut between the two leaves the counter at the limit and the vault on flash, where the
lockout keeps it. Otherwise the counter reaches the limit only together with the removal. -/

namespace Thicket.Vault

open Runs Prog

variable {I : Type} {P : Primitives} {A : IdentityApi I}

variable (P A) in
/-- A boot whose writes go through and whose power is lost after a number of file operations. -/
def cutStep (w : World) (b : Boot I × Nat) : World :=
  bootStep P A w (b.1.powered (List.replicate b.2 true))

variable (P A) in
/-- When the counter has reached the limit for the vault on flash, the next uninterrupted boot ends
with that vault gone. -/
def ErasedNext (w : World) : Prop :=
  w.ledger.triesGen = w.ledger.vaultGen → w.flash.triesValue ≥ vaultMaxTries →
    ∀ b : Boot I, (fullStep P A w b).flash.identity = none ∨
      (fullStep P A w b).ledger.vaultGen ≠ w.ledger.vaultGen

variable (P A) in
/-- A boot that finds nine tries on a vault's counter is cut before it writes the tenth, or is not
cut at all and opens no vault whose key does not load. -/
def TenthCompletes (w : World) (b : Boot I × Nat) : Prop :=
  ∀ file, w.flash.identity = some file → w.flash.triesValue = 9 →
    b.2 ≤ 3 ∨ (6 ≤ b.2 ∧ ∀ prv, passwordOpen P b.1.code file identityPrvBytes = some prv →
      (A.loadPrivateKey prv).isSome)

/-- The counter has not reached the limit for a vault that is still on flash. -/
structure Erased (w : World) : Prop where
  /-- The counter was written for this vault or an earlier one. -/
  gen_le : w.ledger.triesGen ≤ w.ledger.vaultGen
  /-- A vault whose tries are used up is gone. -/
  gone : w.ledger.triesGen = w.ledger.vaultGen → w.flash.triesValue ≥ vaultMaxTries →
    w.flash.identity = none

/-- Where no vault outlives its tries, the next boot leaves none. -/
theorem Erased.erasedNext {w : World} (h : Erased w) : ErasedNext P A w := by
  intro hgen hlock b
  have hid := h.gone hgen hlock
  unfold fullStep
  cases hgenerated : b.generated with
  | none =>
    rw [fullBoot_of_not_generated hid hgenerated]
    exact .inl hid
  | some i =>
    rw [fullBoot_of_sealed hid hgenerated]
    exact .inr (Nat.succ_ne_self _)

/-- A vault that has outlived its tries stays. -/
theorem not_erasedNext {w : World} {file : Bytes} (b : Boot I) (hid : w.flash.identity = some file)
    (hgen : w.ledger.triesGen = w.ledger.vaultGen) (hlock : w.flash.triesValue ≥ vaultMaxTries) :
    ¬ ErasedNext P A w := by
  intro h
  have hnext := h hgen hlock b
  rw [fullStep, fullBoot_of_locked hid hlock, hid] at hnext
  simp at hnext

/-- A counter below the limit has used no vault up. -/
theorem erased_of_room {w : World} (hgen : w.ledger.triesGen ≤ w.ledger.vaultGen)
    (hroom : ¬ w.flash.triesValue ≥ vaultMaxTries) : Erased w :=
  ⟨hgen, fun _ hlock => absurd hlock hroom⟩

/-- Before the tenth try a further one leaves room. -/
theorem room_succ {tried : UInt8} (hroom : ¬ tried ≥ vaultMaxTries) (hne : tried ≠ 9) :
    ¬ tried + 1 ≥ vaultMaxTries := by
  obtain ⟨hsucc, hlt⟩ := toNat_succ_of_lt hroom
  have hne' : tried.toNat ≠ 9 := fun h => hne (UInt8.toNat_inj.mp h)
  have hten : vaultMaxTries.toNat = 10 := rfl
  rw [ge_iff_le, UInt8.le_iff_toNat_le]
  omega

/-- An attempt other than the tenth uses no vault up, wherever it is cut. -/
theorem wp_vaultAttempt_erased {code : Bytes} {w : World} {tried : UInt8} (h : Erased w)
    (hne : tried ≠ 9) :
    Wp (World.handle P code) (fun _ ok => ok = true) Erased (fun _ _ => True)
      (vaultAttempt P A code tried) w := by
  unfold vaultAttempt
  split
  · exact ⟨h, trivial⟩
  next hroom =>
  have hsucc := room_succ hroom hne
  have hcharged : ∀ f : Flash, f.triesValue = tried + 1 → ∀ g o,
      Erased ⟨f, { w.ledger with guesses := g, opened := o, triesGen := w.ledger.vaultGen }⟩ :=
    fun f hf g o => erased_of_room le_rfl (hf ▸ hsucc)
  refine ⟨h, ?_⟩
  rintro ok rfl
  refine ⟨hcharged _ rfl _ _, fun ok _ => ?_⟩
  simp only [World.handle, Flash.handle, Flash.get, Flash.set, Ledger.note]
  cases passwordOpen P code (w.flash.identity.getD []) identityPrvBytes with
  | none =>
    dsimp only
    split
    · exact ⟨hcharged _ rfl _ _, fun _ _ => ⟨hcharged _ rfl _ _, trivial⟩⟩
    · exact ⟨hcharged _ rfl _ _, trivial⟩
  | some prv =>
    dsimp only
    cases A.loadPrivateKey prv with
    | none => exact ⟨hcharged _ rfl _ _, trivial⟩
    | some i =>
      have hcleared : ¬ (0 : UInt8) ≥ vaultMaxTries := by decide
      exact ⟨hcharged _ rfl _ _, fun _ _ => ⟨erased_of_room le_rfl hcleared, trivial⟩⟩

/-- A boot other than the tenth attempt uses no vault up, wherever it is cut. -/
theorem wp_bringupIdentity_erased {b : Boot I} {w : World} (h : Erased w)
    (hne : w.flash.identity.isSome → w.flash.triesValue ≠ 9) :
    Wp (World.handle P b.code) (fun _ ok => ok = true) Erased (fun _ _ => True)
      (bringupIdentity P A b) w := by
  rw [bringupIdentity_eq]
  refine ⟨h, fun _ _ => ?_⟩
  simp only [World.handle, Flash.handle, Flash.get, Ledger.note]
  cases hid : w.flash.identity with
  | some file =>
    dsimp only [Option.isSome_some]
    rw [vaultOpen_eq]
    exact Wp.bind (wp_vaultTriesRead h (wp_vaultAttempt_erased h (hne (by rw [hid]; rfl))))
  | none =>
    cases b.generated with
    | none => exact ⟨h, trivial⟩
    | some i =>
      refine ⟨h, ?_⟩
      rintro ok rfl
      -- the counter, if there is one, was written for an earlier vault
      refine ⟨⟨Nat.le_succ_of_le h.gen_le, fun hgen => ?_⟩, trivial⟩
      exact absurd hgen (Nat.ne_of_lt (Nat.lt_succ_of_le h.gen_le))

/-! ## The tenth attempt -/

/-- A counter that reads nine is a file. -/
theorem exists_tries {w : World} (hnine : w.flash.triesValue = 9) :
    ∃ t, w.flash.tries = some t ∧ t.headD 0 = 9 := by
  unfold Flash.triesValue at hnine
  cases htries : w.flash.tries with
  | none =>
    rw [htries] at hnine
    exact absurd hnine (by decide)
  | some t => exact ⟨t, rfl, by rwa [htries] at hnine⟩

/-- The first three file operations read the counter. -/
theorem cutStep_attempt {w : World} (b : Boot I) {file : Bytes} (n : Nat)
    (hid : w.flash.identity = some file) (hnine : w.flash.triesValue = 9) :
    cutStep P A w (b, n + 3)
      = (exec (World.handle P b.code) (List.replicate n true) w (vaultAttempt P A b.code 9)).2 := by
  obtain ⟨t, htries, hread⟩ := exists_tries hnine
  rw [cutStep, bootStep_powered, bringupIdentity_eq, vaultOpen_eq, vaultTriesRead_eq]
  simp [List.replicate_succ, World.handle, Flash.handle, Flash.get, Ledger.note, hid, htries,
    ← hread]

/-- **Cut before the write**: nothing has changed. -/
theorem cutStep_before {w : World} (b : Boot I) {file : Bytes} {n : Nat}
    (hid : w.flash.identity = some file) (hnine : w.flash.triesValue = 9) (hn : n ≤ 3) :
    cutStep P A w (b, n) = w := by
  obtain rfl | rfl | rfl | rfl : n = 0 ∨ n = 1 ∨ n = 2 ∨ n = 3 := by omega
  · rw [cutStep, bootStep_powered, List.replicate_zero, exec_nil_state]
  · rw [cutStep, bootStep_powered, bringupIdentity_eq, vaultOpen_eq, vaultTriesRead_eq]
    simp [World.handle, Flash.handle, Flash.get, Ledger.note, hid]
  · rw [cutStep, bootStep_powered, bringupIdentity_eq, vaultOpen_eq, vaultTriesRead_eq]
    simp [List.replicate, World.handle, Flash.handle, Flash.get, Ledger.note, hid]
  · rw [cutStep_attempt b 0 hid hnine, List.replicate_zero, exec_nil_state]

/-- **Cut after the write**: the counter stands at the limit for a vault that is still there. -/
theorem cutStep_between {w : World} (b : Boot I) {file : Bytes} {n : Nat}
    (hid : w.flash.identity = some file) (hnine : w.flash.triesValue = 9) (hlo : 3 < n)
    (hhi : n < 6) : ¬ ErasedNext P A (cutStep P A w (b, n)) := by
  have hroom : ¬ (9 : UInt8) ≥ vaultMaxTries := by decide
  have hlock : (Flash.mk w.flash.identity (some [9 + 1])).triesValue ≥ vaultMaxTries :=
    show (9 + 1 : UInt8) ≥ 10 by decide
  obtain rfl | rfl : n = 1 + 3 ∨ n = 2 + 3 := by omega
  · rw [cutStep_attempt b 1 hid hnine, vaultAttempt, if_neg hroom, List.replicate_one,
      exec_cons_ask, exec_nil_state]
    exact not_erasedNext b hid rfl hlock
  · rw [cutStep_attempt b 2 hid hnine, vaultAttempt, if_neg hroom, List.replicate_succ,
      List.replicate_one, exec_cons_ask, exec_cons_ask, exec_nil_state]
    exact not_erasedNext b hid rfl hlock

/-- **Not cut**: six file operations or more make an uninterrupted boot. -/
theorem cutStep_full (w : World) (b : Boot I) {n : Nat} (hn : 6 ≤ n) :
    cutStep P A w (b, n) = fullStep P A w b := by
  obtain ⟨k, rfl⟩ := Nat.exists_eq_add_of_le hn
  obtain ⟨r, hr⟩ := fullBoot_returns (P := P) (A := A) w b
  have hscript : List.replicate (6 + k) true = fullScript ++ List.replicate k true :=
    List.replicate_add 6 k true
  rw [cutStep, bootStep_powered, hscript, exec_append (World.handle P b.code) hr]
  rfl

/-- A completed tenth attempt erases the vault or clears the counter. -/
theorem fullStep_ninth {w : World} (b : Boot I) {file : Bytes}
    (hid : w.flash.identity = some file) (hnine : w.flash.triesValue = 9)
    (hload : ∀ prv, passwordOpen P b.code file identityPrvBytes = some prv →
      (A.loadPrivateKey prv).isSome) : Erased (fullStep P A w b) := by
  have hroom : ¬ w.flash.triesValue ≥ vaultMaxTries := by rw [hnine]; decide
  have hlast : vaultMaxTries - w.flash.triesValue - 1 = 0 := by rw [hnine]; decide
  unfold fullStep
  cases hopen : passwordOpen P b.code file identityPrvBytes with
  | none =>
    rw [fullBoot_of_refused hid hroom hopen, if_pos hlast]
    exact ⟨le_rfl, fun _ _ => rfl⟩
  | some prv =>
    obtain ⟨i, hi⟩ := Option.isSome_iff_exists.mp (hload prv hopen)
    have hcleared : ¬ (0 : UInt8) ≥ vaultMaxTries := by decide
    rw [fullBoot_of_opened hid hroom hopen hi]
    exact erased_of_room le_rfl hcleared

/-- An uninterrupted tenth attempt whose key does not load leaves the vault locked. -/
theorem not_erasedNext_of_not_loaded {w : World} (b : Boot I) {file prv : Bytes}
    (hid : w.flash.identity = some file) (hnine : w.flash.triesValue = 9)
    (hopen : passwordOpen P b.code file identityPrvBytes = some prv)
    (hload : A.loadPrivateKey prv = none) : ¬ ErasedNext P A (fullStep P A w b) := by
  have hroom : ¬ w.flash.triesValue ≥ vaultMaxTries := by rw [hnine]; decide
  have hlock : w.flash.triesValue + 1 ≥ vaultMaxTries := by rw [hnine]; decide
  rw [fullStep, fullBoot_of_not_loaded hid hroom hopen hload]
  exact not_erasedNext b rfl rfl hlock

/-- A boot that does not break off the tenth attempt uses up no vault that stays. -/
theorem Erased.cutStep {w : World} (h : Erased w) {b : Boot I × Nat}
    (hok : TenthCompletes P A w b) : Erased (cutStep P A w b) := by
  obtain ⟨b, n⟩ := b
  by_cases hninth : w.flash.identity.isSome ∧ w.flash.triesValue = 9
  · obtain ⟨hsome, hnine⟩ := hninth
    obtain ⟨file, hid⟩ := Option.isSome_iff_exists.mp hsome
    obtain hn | ⟨hn, hload⟩ := hok file hid hnine
    · rwa [cutStep_before b hid hnine hn]
    · rw [cutStep_full w b hn]
      exact fullStep_ninth b hid hnine hload
  · refine ((wp_bringupIdentity_erased h fun hsome hnine => hninth ⟨hsome, hnine⟩).sound ?_).1
    exact scriptMeets_of_forall _ (fun ok hmem _ => List.eq_of_mem_replicate hmem) _ _

/-- A boot that breaks off the tenth attempt leaves a vault that stays. -/
theorem not_erasedNext_cutStep {w : World} {b : Boot I × Nat} (hbad : ¬ TenthCompletes P A w b) :
    ¬ ErasedNext P A (cutStep P A w b) := by
  obtain ⟨b, n⟩ := b
  simp only [TenthCompletes, not_forall, not_or, not_and] at hbad
  obtain ⟨file, hid, hnine, hlo, hhi⟩ := hbad
  by_cases hn : n < 6
  · exact cutStep_between b hid hnine (by omega) hn
  · obtain ⟨prv, hopen, hload⟩ := hhi (by omega)
    rw [cutStep_full w b (by omega)]
    exact not_erasedNext_of_not_loaded b hid hnine hopen (by simpa using hload)

/-- **The tenth wrong code erases the vault exactly when no boot breaks off a tenth attempt.** Over
every history of boots whose writes go through and whose power is lost anywhere: a counter that has
reached the limit for the vault on flash always leaves that vault gone at the end of the next
uninterrupted boot iff every boot that starts with nine tries on a vault's counter is cut before it
writes the tenth or not at all, and opens no vault whose key does not load. -/
theorem tenth_erases_iff (P : Primitives) (A : IdentityApi I) (history : List (Boot I × Nat)) :
    (∀ pre, pre <+: history → ErasedNext P A (run (cutStep P A) {} pre)) ↔
      Along (cutStep P A) (TenthCompletes P A) {} history :=
  forall_prefix_iff_along Erased (ErasedNext P A) (fun _ => Erased.erasedNext)
    (fun _ _ h => h.cutStep) (fun _ _ _ => not_erasedNext_cutStep) ⟨le_rfl, fun _ _ => rfl⟩ history

/-- Nine wrong codes, and the power lost during the key stretching of the tenth: the counter reads
ten and the vault stays, locked out. -/
theorem tenth_cut_short :
    ¬ ∀ history : List (Boot { b : Bytes // b.length = identityPrvBytes } × Nat),
      ErasedNext .transparent .ofKeys (run (cutStep .transparent .ofKeys) {} history) := by
  intro hall
  have hseal : Charges sampleVault 0 (fullStep .transparent .ofKeys {} (sampleBoot [1])) :=
    charges_sealing (w := {}) (b := sampleBoot [1]) (i := sampleKey) rfl rfl
  have hnine := charges_replicate (A := .ofKeys) (k := 9) sampleVault_refuses hseal (by decide)
  have hfull (w : World) (boots : List (Boot { b : Bytes // b.length = identityPrvBytes })) :
      run (cutStep .transparent .ofKeys) w (boots.map fun b => (b, 6))
        = run (fullStep .transparent .ofKeys) w boots := by
    induction boots generalizing w with
    | nil => rfl
    | cons b bs ih => rw [List.map_cons, run_cons, run_cons, cutStep_full w b le_rfl, ih]
  have hcut := hall (((sampleBoot [1] :: List.replicate 9 (sampleBoot [2])).map fun b => (b, 6))
    ++ [(sampleBoot [2], 4)])
  rw [run_append, hfull, run_cons, run_cons, run_nil] at hcut
  exact cutStep_between (sampleBoot [2]) hnine.identity_eq (UInt8.toNat_inj.mp hnine.tries_eq)
    (by decide) (by decide) hcut

end Thicket.Vault
