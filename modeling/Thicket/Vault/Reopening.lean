import Thicket.Vault.UninterruptedBoot

/-! # A sealed identity is reopened with its code

The vault and its attempt counter are two files, and only opening a vault removes the counter. The
tenth wrong code removes the vault and leaves the counter at ten, where it stays: a vault sealed
after that is locked from the start. A vault sealed with the counter at zero opens with its code,
as long as no ten codes in a row are charged to it. -/

namespace Thicket.Vault

open Runs Prog

variable {I : Type} {P : Primitives} {A : IdentityApi I}

variable (P A) in
/-- The world after an uninterrupted boot. -/
def fullStep (w : World) (b : Boot I) : World := (fullBoot P A w b).2

variable (P A) in
/-- The boot finds a vault and comes up with the identity `i`. -/
def OpensVault (w : World) (b : Boot I) (i : I) : Prop :=
  w.flash.identity.isSome ∧ (fullBoot P A w b).1 = some (some i)

variable (P A) in
/-- Whether a code opens a vault and its key loads. -/
def admits (file code : Bytes) : Bool :=
  ((passwordOpen P code file identityPrvBytes).bind A.loadPrivateKey).isSome

variable (P A) in
/-- The charges on a vault after one more code: none once it has been opened. -/
def charge (file : Bytes) (n : Nat) (code : Bytes) : Nat :=
  if admits P A file code then 0 else n + 1

/-- The vault is on flash with `n` charges on the counter. -/
structure Charges (file : Bytes) (n : Nat) (w : World) : Prop where
  /-- The vault. -/
  identity_eq : w.flash.identity = some file
  /-- The counter. -/
  tries_eq : w.flash.triesValue.toNat = n

/-- The counter stands at the limit. -/
def Locked (w : World) : Prop := w.flash.triesValue.toNat = 10

/-- A counter at the limit locks every vault. -/
theorem Locked.ge {w : World} (h : Locked w) : w.flash.triesValue ≥ vaultMaxTries := by
  rw [Locked] at h
  rw [ge_iff_le, UInt8.le_iff_toNat_le, h]
  decide

/-- Fewer charges than ten leave room for another. -/
theorem Charges.room {file : Bytes} {n : Nat} {w : World} (h : Charges file n w) (hn : n < 10) :
    ¬ w.flash.triesValue ≥ vaultMaxTries := by
  rw [ge_iff_le, UInt8.le_iff_toNat_le, h.tries_eq]
  exact Nat.not_le.mpr hn

/-- A counter at the limit stays there, whatever is booted. -/
theorem locked_fullStep {w : World} (h : Locked w) (b : Boot I) : Locked (fullStep P A w b) := by
  unfold fullStep
  cases hid : w.flash.identity with
  | some file => rwa [fullBoot_of_locked hid h.ge]
  | none =>
    cases hgen : b.generated with
    | none => rwa [fullBoot_of_not_generated hid hgen]
    | some i => rw [fullBoot_of_sealed hid hgen]; exact h

/-- With the counter at the limit no boot opens a vault. -/
theorem Locked.not_opensVault {w : World} (h : Locked w) (b : Boot I) (i : I) :
    ¬ OpensVault P A w b i := by
  rintro ⟨hsome, hres⟩
  obtain ⟨file, hid⟩ := Option.isSome_iff_exists.mp hsome
  rw [fullBoot_of_locked hid h.ge] at hres
  cases hres

/-- What is charged to the counter file is one more than it held. -/
theorem toNat_tries_succ {w : World} {file : Bytes} {n : Nat} (h : Charges file n w) (hn : n < 10) :
    (w.flash.triesValue + 1).toNat = n + 1 := by
  rw [(toNat_succ_of_lt (h.room hn)).1, h.tries_eq]

/-- **One boot charges the counter.** From a vault with room on its counter, the boot leaves the
vault with the new charge, and the counter at the limit when that charge is the tenth. -/
theorem charges_fullStep {w : World} {file : Bytes} {n : Nat} (h : Charges file n w) (hn : n < 10)
    (b : Boot I) :
    (charge P A file n b.code < 10 →
      Charges file (charge P A file n b.code) (fullStep P A w b)) ∧
    (¬ charge P A file n b.code < 10 → Locked (fullStep P A w b)) := by
  have hsucc := toNat_tries_succ h hn
  unfold fullStep
  cases hopen : passwordOpen P b.code file identityPrvBytes with
  | none =>
    have hcharge : charge P A file n b.code = n + 1 := by simp [charge, admits, hopen]
    rw [fullBoot_of_refused h.identity_eq (h.room hn) hopen, hcharge]
    refine ⟨fun hlt => ⟨if_neg fun hlast => ?_, hsucc⟩, fun hge => hsucc.trans (by omega)⟩
    -- no try left means that this was the tenth
    rw [sub_sub, sub_eq_zero] at hlast
    rw [← hlast] at hsucc
    have hten : 10 = n + 1 := hsucc
    omega
  | some prv =>
    cases hload : A.loadPrivateKey prv with
    | none =>
      have hcharge : charge P A file n b.code = n + 1 := by simp [charge, admits, hopen, hload]
      rw [fullBoot_of_not_loaded h.identity_eq (h.room hn) hopen hload, hcharge]
      exact ⟨fun _ => ⟨rfl, hsucc⟩, fun hge => hsucc.trans (by omega)⟩
    | some i =>
      have hcharge : charge P A file n b.code = 0 := by simp [charge, admits, hopen, hload]
      rw [fullBoot_of_opened h.identity_eq (h.room hn) hopen hload, hcharge]
      exact ⟨fun _ => ⟨rfl, rfl⟩, fun hge => absurd (by decide) hge⟩

/-- **The run of a vault.** The counter follows the charges as long as these stay below ten, and
stands at the limit from the tenth on. -/
theorem charges_run {w : World} {file : Bytes} {n : Nat} (h : Charges file n w) (hn : n < 10)
    (boots : List (Boot I)) :
    (∃ m < 10, Charges file m (run (fullStep P A) w boots) ∧
      Along (charge P A file) (fun k code => charge P A file k code < 10) n (boots.map Boot.code)) ∨
    (Locked (run (fullStep P A) w boots) ∧
      ¬ Along (charge P A file) (fun k code => charge P A file k code < 10) n
        (boots.map Boot.code)) := by
  induction boots generalizing w n with
  | nil => exact .inl ⟨n, hn, h, trivial⟩
  | cons b bs ih =>
    have hb := charges_fullStep (P := P) (A := A) h hn b
    by_cases hlt : charge P A file n b.code < 10
    · obtain ⟨m, hm, hch, halong⟩ | ⟨hlock, hnot⟩ := ih (hb.1 hlt) hlt
      · exact .inl ⟨m, hm, hch, hlt, halong⟩
      · exact .inr ⟨hlock, fun halong => hnot halong.2⟩
    · exact .inr ⟨run_invariant Locked (fun _ b h => locked_fullStep h b) (hb.2 hlt) bs,
        fun halong => hlt halong.1⟩

/-! ## Sealing and reopening -/

/-- Between boots a vault has room on its counter, or the counter stands at the limit, or there is
neither vault nor charge. -/
def Settled (w : World) : Prop :=
  (∃ file, ∃ n < 10, Charges file n w) ∨ Locked w ∨
    (w.flash.identity = none ∧ w.flash.triesValue = 0)

/-- A freshly sealed vault has the charges the counter already held. -/
theorem charges_sealing {w : World} {b : Boot I} {i : I} (hid : w.flash.identity = none)
    (hgen : b.generated = some i) :
    Charges (b.vault P A i) w.flash.triesValue.toNat (fullStep P A w b) := by
  unfold fullStep
  rw [fullBoot_of_sealed hid hgen]
  exact ⟨rfl, rfl⟩

/-- Every boot leaves the files settled. -/
theorem settled_fullStep {w : World} (h : Settled w) (b : Boot I) :
    Settled (fullStep P A w b) := by
  obtain ⟨file, n, hn, hch⟩ | hlock | ⟨hid, hzero⟩ := h
  · have hb := charges_fullStep (P := P) (A := A) hch hn b
    by_cases hlt : charge P A file n b.code < 10
    · exact .inl ⟨file, _, hlt, hb.1 hlt⟩
    · exact .inr (.inl (hb.2 hlt))
  · exact .inr (.inl (locked_fullStep hlock b))
  · cases hgen : b.generated with
    | none =>
      refine .inr (.inr ?_)
      rw [fullStep, fullBoot_of_not_generated hid hgen]
      exact ⟨hid, hzero⟩
    | some i =>
      have hch := charges_sealing (P := P) (A := A) hid hgen
      rw [hzero] at hch
      exact .inl ⟨_, 0, by decide, hch⟩

/-- A blank device is settled. -/
theorem settled_blank : Settled {} := .inr (.inr ⟨rfl, rfl⟩)

/-- A vault with room on its counter opens with the code it was sealed with. -/
theorem Charges.opensVault {w : World} {b b' : Boot I} {i : I} {n : Nat}
    (h : Charges (b.vault P A i) n w) (hn : n < 10) (hcode : b'.code = b.code) :
    OpensVault P A w b' i := by
  have hopen : passwordOpen P b'.code (b.vault P A i) identityPrvBytes
      = some (A.getPrivateKey i) := by
    rw [hcode, Boot.vault, ← A.getPrivateKey_length i, passwordOpen_passwordProtect]
  refine ⟨Option.isSome_iff_exists.mpr ⟨_, h.identity_eq⟩, ?_⟩
  rw [fullBoot_of_opened h.identity_eq (h.room hn) hopen (A.load_get i)]

/-- **A sealed identity is reopened with its code** exactly when the counter read zero as it was
sealed, that is, when no earlier vault had used the ten tries up, and no ten codes in a row have
been charged to it since. -/
theorem sealed_reopens_iff (P : Primitives) (A : IdentityApi I) (before between : List (Boot I))
    (sealing reopening : Boot I) (i : I)
    (hnone : (run (fullStep P A) {} before).flash.identity = none)
    (hgen : sealing.generated = some i) (hcode : reopening.code = sealing.code) :
    OpensVault P A (run (fullStep P A) {} (before ++ sealing :: between)) reopening i ↔
      (run (fullStep P A) {} before).flash.triesValue = 0 ∧
        Along (charge P A (sealing.vault P A i))
          (fun n code => charge P A (sealing.vault P A i) n code < 10) 0
          (between.map Boot.code) := by
  have hsettled : Settled (run (fullStep P A) {} before) :=
    run_invariant Settled (fun _ b h => settled_fullStep h b) settled_blank before
  have hch := charges_sealing (P := P) (A := A) hnone hgen
  rw [run_append, run_cons]
  obtain ⟨file, n, -, hn⟩ | hlock | ⟨-, hzero⟩ := hsettled
  · rw [hn.identity_eq] at hnone
    cases hnone
  · -- an earlier vault used the tries up: the new one is locked
    have hlock' : Locked (run (fullStep P A) (fullStep P A (run (fullStep P A) {} before) sealing)
        between) :=
      run_invariant Locked (fun _ b h => locked_fullStep h b) (locked_fullStep hlock sealing)
        between
    refine iff_of_false (hlock'.not_opensVault reopening i) fun hcond => ?_
    rw [Locked, hcond.1] at hlock
    exact absurd hlock (by decide)
  · rw [hzero] at hch
    obtain ⟨m, hm, hopen, halong⟩ | ⟨hlock, hnot⟩ :=
      charges_run (P := P) (A := A) hch (by decide) between
    · exact iff_of_true (hopen.opensVault hm hcode) ⟨hzero, halong⟩
    · exact iff_of_false (hlock.not_opensVault reopening i) fun hcond => hnot hcond.2

/-- Codes that a vault refuses add up on the counter. -/
theorem charges_replicate {w : World} {file : Bytes} {b : Boot I} {n k : Nat}
    (hopen : passwordOpen P b.code file identityPrvBytes = none) (h : Charges file n w)
    (hk : n + k < 10) : Charges file (n + k) (run (fullStep P A) w (List.replicate k b)) := by
  induction k generalizing w n with
  | zero => exact h
  | succ k ih =>
    have hcharge : charge P A file n b.code = n + 1 := by simp [charge, admits, hopen]
    have hb := (charges_fullStep (P := P) (A := A) h (by omega) b).1 (by omega)
    rw [hcharge] at hb
    rw [List.replicate_succ, run_cons, show n + (k + 1) = n + 1 + k by omega]
    exact ih hb (by omega)

/-- The tenth refused code destroys the vault. -/
theorem tenth_destroys {w : World} {file : Bytes} {b : Boot I}
    (hopen : passwordOpen P b.code file identityPrvBytes = none) (h : Charges file 9 w) :
    (fullStep P A w b).flash.identity = none ∧ Locked (fullStep P A w b) := by
  have hlast : vaultMaxTries - w.flash.triesValue - 1 = 0 := by
    rw [show w.flash.triesValue = 9 from UInt8.toNat_inj.mp h.tries_eq]
    rfl
  have hsucc := toNat_tries_succ h (by decide)
  rw [fullStep, fullBoot_of_refused h.identity_eq (h.room (by decide)) hopen, if_pos hlast]
  exact ⟨rfl, hsucc⟩

/-- The sample vault, destroyed by ten wrong codes, sealed anew, and locked from the start. -/
theorem resealed_is_locked :
    (run (fullStep .transparent .ofKeys) {}
      (sampleBoot [1] :: List.replicate 10 (sampleBoot [2]))).flash.identity = none ∧
    ¬ OpensVault .transparent .ofKeys (run (fullStep .transparent .ofKeys) {}
      ((sampleBoot [1] :: List.replicate 10 (sampleBoot [2])) ++ [sampleBoot [1]]))
      (sampleBoot [1]) sampleKey := by
  have hseal : Charges sampleVault 0 (fullStep .transparent .ofKeys {} (sampleBoot [1])) :=
    charges_sealing (w := {}) (b := sampleBoot [1]) (i := sampleKey) rfl rfl
  have hnine := charges_replicate (A := .ofKeys) (k := 9) sampleVault_refuses hseal (by decide)
  obtain ⟨hgone, hlock⟩ := tenth_destroys (A := .ofKeys) sampleVault_refuses hnine
  have hboots : run (fullStep .transparent .ofKeys) {}
      (sampleBoot [1] :: List.replicate 10 (sampleBoot [2]))
        = fullStep .transparent .ofKeys (run (fullStep .transparent .ofKeys)
          (fullStep .transparent .ofKeys {} (sampleBoot [1])) (List.replicate 9 (sampleBoot [2])))
          (sampleBoot [2]) := by
    rw [List.replicate_succ', run_cons, run_append, run_cons, run_nil]
  rw [run_append, hboots, run_cons, run_nil]
  exact ⟨hgone, (locked_fullStep hlock _).not_opensVault _ _⟩

/-- A vault sealed on a blank device still opens after a wrong code. -/
theorem sealed_reopens_sample :
    OpensVault .transparent .ofKeys (run (fullStep .transparent .ofKeys) {}
      ([] ++ sampleBoot [1] :: [sampleBoot [2]])) (sampleBoot [1]) sampleKey := by
  refine (sealed_reopens_iff .transparent .ofKeys [] [sampleBoot [2]] (sampleBoot [1])
    (sampleBoot [1]) sampleKey rfl rfl rfl).mpr ⟨rfl, ?_, trivial⟩
  have hcharge : charge .transparent .ofKeys sampleVault 0 (sampleBoot [2]).code = 1 := by
    simp [charge, admits, sampleVault_refuses]
  exact hcharge.trans_lt (by decide)

end Thicket.Vault
