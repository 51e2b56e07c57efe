import Thicket.Base.Runs
import Thicket.Vault.Bringup

/-! # One address for good

`src/main.cpp`, `bringup_identity` of the build without `THICKET_IDENTITY_CODE`: the identity is
written once and read ever after. The file outlives the boots; a power cut or a failed write may
leave anything in it, or nothing. -/

namespace Thicket.Vault

open Runs

/-- What is asked about the file at `IDENTITY_PATH`. -/
inductive IdentityReq (I : Type) where
  /-- `OS::file_exists`. -/
  | fileExists
  /-- `RNS::Identity::from_file`. -/
  | fromFile
  /-- `to_file` of this identity. -/
  | toFile (i : I)

/-- What the caller learns: existence, the identity read, whether it was written. -/
abbrev IdentityReq.Resp {I : Type} : IdentityReq I → Type
  | .fileExists => Bool
  | .fromFile => Option I
  | .toFile _ => Bool

/-- `g_identity_source`. -/
inductive IdentitySource where
  /-- "loaded from external flash". -/
  | loaded
  /-- "generated and written (first boot)". -/
  | generated
  deriving DecidableEq, Repr

/-- Why `bringup_identity` returns false. -/
inductive IdentityFault where
  /-- "identity file present but unreadable - refusing to overwrite". -/
  | unreadable
  /-- "key generation failed". -/
  | notGenerated
  /-- "could not persist identity to external flash". -/
  | notPersisted
  deriving DecidableEq, Repr

variable {I : Type} {F : Type*}

/-- `bringup_identity`; `generated` is what `RNS::Identity()` gives, `none` when key generation
fails. -/
def bringupPlainIdentity (generated : Option I) :
    Prog (IdentityReq I) IdentityReq.Resp (Except IdentityFault (I × IdentitySource)) := do
  let present ← .ask .fileExists .done
  if present then
    match ← .ask .fromFile .done with
    | some i => return .ok (i, .loaded)
    | none => return .error .unreadable
  else
    match generated with
    | none => return .error .notGenerated
    | some i =>
        let written ← .ask (.toFile i) .done
        if !written then return .error .notPersisted
        return .ok (i, .generated)

/-! ## The file -/

/-- The file format of `RNS::Identity`, with file contents in `F`. -/
structure IdentityFormat (I : Type) (F : Type*) where
  /-- What `to_file` writes. -/
  write : I → F
  /-- What `from_file` makes of a content. -/
  read : F → Option I
  /-- An identity is read back as it was written. -/
  read_write : ∀ i, read (write i) = some i

/-- How a `to_file` ends. -/
inductive Writing (F : Type*) where
  /-- All of it is written. -/
  | complete
  /-- It fails, or the power does, and this is left. -/
  | broken (left : Option F)

/-- What is left of the content `f`. -/
def Writing.left (f : F) : Writing F → Option F
  | .complete => some f
  | .broken left => left

variable (format : IdentityFormat I F)

/-- The file system's part; `none` for a missing file. -/
def IdentityFormat.handle :
    (r : IdentityReq I) → Writing F → Option F → r.Resp × Option F
  | .fileExists, _, file => (file.isSome, file)
  | .fromFile, _, file => (file.bind format.read, file)
  | .toFile i, .complete, _ => (true, some (format.write i))
  | .toFile _, .broken left, _ => (false, left)

/-- A boot: the identity a generation would give, and how its file operations end; the power fails
where the script does. -/
structure PlainBoot (I : Type) (F : Type*) where
  /-- `RNS::Identity()`. -/
  generated : Option I
  /-- The operations that take place. -/
  script : List (Writing F)

/-- The power stays on for the two operations a boot performs. -/
def PlainBoot.Powered (b : PlainBoot I F) : Prop := 2 ≤ b.script.length

/-- The result of a boot, `none` when the power fails before it, and the file it leaves. -/
def IdentityFormat.boot (file : Option F) (b : PlainBoot I F) :
    Option (Except IdentityFault (I × IdentitySource)) × Option F :=
  Prog.exec format.handle b.script file (bringupPlainIdentity b.generated)

/-- The file after a boot. -/
def IdentityFormat.bootStep (file : Option F) (b : PlainBoot I F) : Option F :=
  (format.boot file b).2

/-- The identity a boot comes up with. -/
def IdentityFormat.address (file : Option F) (b : PlainBoot I F) : List I :=
  match (format.boot file b).1 with
  | some (.ok (i, _)) => [i]
  | _ => []

/-- What a boot leaves on a device without an identity file. -/
def PlainBoot.leaves (b : PlainBoot I F) : Option F :=
  match b.generated, b.script with
  | some i, _ :: writing :: _ => writing.left (format.write i)
  | _, _ => none

variable {format}

/-! ## One boot -/

/-- **With a file** a boot reads it and changes nothing. -/
theorem IdentityFormat.boot_present (format : IdentityFormat I F) (file : F) (b : PlainBoot I F) :
    (format.boot (some file) b).2 = some file ∧
      ∀ r ∈ (format.boot (some file) b).1, r = match format.read file with
        | some i => .ok (i, .loaded)
        | none => .error .unreadable := by
  unfold IdentityFormat.boot bringupPlainIdentity
  match b.script with
  | [] => simp
  | [_] => simp [IdentityFormat.handle]
  | _ :: _ :: _ => cases hread : format.read file <;> simp [IdentityFormat.handle, hread]

/-- With a file and power, a boot returns. -/
theorem IdentityFormat.boot_present_powered (format : IdentityFormat I F) (file : F)
    {b : PlainBoot I F} (h : b.Powered) :
    (format.boot (some file) b).1 = some (match format.read file with
      | some i => .ok (i, .loaded)
      | none => .error .unreadable) := by
  unfold PlainBoot.Powered at h
  unfold IdentityFormat.boot bringupPlainIdentity
  match hscript : b.script with
  | [] | [_] => simp [hscript] at h
  | _ :: _ :: _ => cases hread : format.read file <;> simp [IdentityFormat.handle, hread]

/-- **Without a file** a boot generates, and comes up only with what it has written. -/
theorem IdentityFormat.boot_absent (format : IdentityFormat I F) (b : PlainBoot I F) :
    (format.boot none b).2 = b.leaves format ∧
      ∀ i ∈ format.address none b, (b.leaves format).bind format.read = some i := by
  unfold IdentityFormat.address IdentityFormat.boot bringupPlainIdentity PlainBoot.leaves
  cases b.generated with
  | none =>
    match b.script with
    | [] | [_] | _ :: _ :: _ => simp [IdentityFormat.handle]
  | some i =>
    match b.script with
    | [] | [_] => simp [IdentityFormat.handle]
    | _ :: .complete :: _ => simp [IdentityFormat.handle, Writing.left, format.read_write]
    | _ :: .broken left :: _ => simp [IdentityFormat.handle, Writing.left]

/-! ## Histories -/

/-- A file that is there stays as it is. -/
theorem IdentityFormat.run_present (file : F) (boots : List (PlainBoot I F)) :
    run format.bootStep (some file) boots = some file := by
  refine run_invariant (· = some file) (fun kept b hkept => ?_) rfl boots
  rw [hkept]
  exact (format.boot_present file b).1

/-- The file after a history: what the first boot that leaves a file leaves. -/
theorem run_bootStep (format : IdentityFormat I F) (boots : List (PlainBoot I F)) :
    run format.bootStep none boots = boots.findSome? (PlainBoot.leaves format) := by
  induction boots with
  | nil => rfl
  | cons b boots ih =>
    have hfirst : format.bootStep none b = b.leaves format := (format.boot_absent b).1
    rw [run_cons, hfirst, List.findSome?_cons]
    cases b.leaves format with
    | none => exact ih
    | some file => exact IdentityFormat.run_present file boots

/-- A boot comes up with what the file it leaves reads as. -/
theorem IdentityFormat.read_of_mem_address {file : Option F} {b : PlainBoot I F} {i : I}
    (h : i ∈ format.address file b) : (format.bootStep file b).bind format.read = some i := by
  cases file with
  | none =>
    obtain ⟨hleft, hread⟩ := format.boot_absent b
    rw [IdentityFormat.bootStep, hleft]
    exact hread i h
  | some file =>
    obtain ⟨hleft, hresult⟩ := format.boot_present file b
    rw [IdentityFormat.bootStep, hleft, Option.bind_some]
    unfold IdentityFormat.address at h
    split at h
    next j source hup =>
      obtain rfl := List.mem_singleton.mp h
      have hread := hresult _ hup
      cases hfile : format.read file with
      | none => simp [hfile] at hread
      | some k =>
        rw [hfile] at hread
        simp only [Except.ok.injEq, Prod.mk.injEq] at hread
        rw [hread.1]
    next => cases h

/-- The addresses a history came up with are what the file left by it reads as. -/
theorem read_of_mem_addresses {file : Option F} {boots : List (PlainBoot I F)} {i : I}
    (h : i ∈ outputs format.bootStep format.address file boots) :
    (run format.bootStep file boots).bind format.read = some i := by
  induction boots generalizing file with
  | nil => cases h
  | cons b boots ih =>
    rw [outputs_cons] at h
    obtain hnow | hlater := List.mem_append.mp h
    · have hread := IdentityFormat.read_of_mem_address hnow
      obtain ⟨kept, hkept, hreads⟩ := Option.bind_eq_some_iff.mp hread
      rw [run_cons, hkept, IdentityFormat.run_present]
      exact hreads
    · rw [run_cons]
      exact ih hlater

/-- **One address for good.** Over any history of boots of a new device, with power cuts and
writes that fail and leave anything: the identity file is the one that the first boot to leave a
file left; every boot that comes up comes up with the identity in it, so that no two differ; and
the next boot with power comes up with it as well, or, if it is unreadable, does not come up and
leaves it alone. -/
theorem one_address (format : IdentityFormat I F) (boots : List (PlainBoot I F)) :
    run format.bootStep none boots = boots.findSome? (PlainBoot.leaves format) ∧
    (∀ i ∈ outputs format.bootStep format.address none boots,
      (boots.findSome? (PlainBoot.leaves format)).bind format.read = some i) ∧
    ∀ file ∈ boots.findSome? (PlainBoot.leaves format), ∀ b : PlainBoot I F, b.Powered →
      format.boot (run format.bootStep none boots) b = (some (match format.read file with
        | some i => .ok (i, .loaded)
        | none => .error .unreadable), some file) := by
  have hrun := run_bootStep format boots
  refine ⟨hrun, fun i hi => ?_, fun file hfile b hb => ?_⟩
  · rw [← hrun]
    exact read_of_mem_addresses hi
  · rw [hrun, Option.mem_def.mp hfile]
    exact Prod.ext (format.boot_present_powered file hb)
      (format.boot_present file b).1

/-- A private key. -/
abbrev PrivateKey : Type := { b : Bytes // b.length = identityPrvBytes }

/-- A file that is as long as a private key is one. -/
def readPrivateKey (file : Bytes) : Option PrivateKey :=
  if h : file.length = identityPrvBytes then some ⟨file, h⟩ else none

/-- A private key is read back. -/
theorem readPrivateKey_val (i : PrivateKey) : readPrivateKey i.1 = some i := dif_pos i.2

/-- The format of `RNS::Identity`: the private key, and nothing else. -/
def privateKeyFormat : IdentityFormat PrivateKey Bytes where
  write i := i.1
  read := readPrivateKey
  read_write := readPrivateKey_val

/-- A private key of one byte, over and over. -/
def uniformKey (b : UInt8) : PrivateKey :=
  ⟨List.replicate identityPrvBytes b, by simp⟩

/-- A write that fails and leaves nothing, one that goes through, and a power cut: the device has
the identity of the second boot. -/
theorem one_address_second_boot :
    privateKeyFormat.boot (run privateKeyFormat.bootStep none
        [⟨some (uniformKey 1), [.complete, .broken none]⟩,
          ⟨some (uniformKey 2), [.complete, .complete]⟩, ⟨some (uniformKey 3), [.complete]⟩])
        ⟨some (uniformKey 4), [.complete, .complete]⟩
      = (some (.ok (uniformKey 2, .loaded)), some (uniformKey 2).1) :=
  (one_address privateKeyFormat _).2.2 (uniformKey 2).1 rfl _ (Nat.le_refl 2)

end Thicket.Vault
