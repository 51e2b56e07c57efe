import Thicket.Base.Program
import Thicket.Vault.Password

/-! # Bringing the identity up from the vault

`src/main.cpp`, the `THICKET_IDENTITY_CODE` build: `vault_tries_read`, `vault_tries_write`,
`vault_open`, `vault_seal` and `bringup_identity`, as programs over the file operations of
`RNS::Utilities::OS`. Two files persist between boots: the vault and the attempt counter. -/

namespace Thicket.Vault

/-- The two persistent files. -/
inductive Path where
  /-- `IDENTITY_PATH`: the vault. -/
  | identity
  /-- `VAULT_TRIES_PATH`: the attempt counter. -/
  | tries
  deriving DecidableEq, Repr

/-- A file operation. -/
inductive FileReq where
  /-- `file_exists`. -/
  | fileExists (p : Path)
  /-- `read_file`. -/
  | readFile (p : Path)
  /-- `write_file`. -/
  | writeFile (p : Path) (data : Bytes)
  /-- `remove_file`. -/
  | removeFile (p : Path)
  deriving DecidableEq

/-- What the caller learns: existence, the bytes read (their number is the return value), the
number of bytes written, nothing the caller looks at. -/
abbrev FileReq.Resp : FileReq → Type
  | .fileExists _ => Bool
  | .readFile _ => Bytes
  | .writeFile _ _ => Nat
  | .removeFile _ => Unit

/-- A program over the file system. -/
abbrev FileProg (α : Type) : Type := Prog FileReq FileReq.Resp α

/-- `OS::file_exists(p)`. -/
def fileExists (p : Path) : FileProg Bool := .ask (.fileExists p) .done
/-- `OS::read_file(p, ..)`. -/
def readFile (p : Path) : FileProg Bytes := .ask (.readFile p) .done
/-- `OS::write_file(p, data)`. -/
def writeFile (p : Path) (data : Bytes) : FileProg Nat := .ask (.writeFile p data) .done
/-- `OS::remove_file(p)`. -/
def removeFile (p : Path) : FileProg Unit := .ask (.removeFile p) .done

/-- `IDENTITY_PRV_BYTES`. -/
def identityPrvBytes : Nat := 64
/-- `VAULT_MAX_TRIES`. -/
def vaultMaxTries : UInt8 := 10

/-- What `main.cpp` uses of `RNS::Identity`. -/
structure IdentityApi (I : Type) where
  /-- `get_private_key()`. -/
  getPrivateKey : I → Bytes
  /-- `load_private_key(prv)` into an empty identity; `none` when it returns false. -/
  loadPrivateKey : Bytes → Option I
  /-- A private key is 64 bytes. -/
  getPrivateKey_length : ∀ i, (getPrivateKey i).length = identityPrvBytes
  /-- Loading a private key gives the identity it belongs to. -/
  load_get : ∀ i, loadPrivateKey (getPrivateKey i) = some i

/-- Identities that are their private keys. -/
def IdentityApi.ofKeys : IdentityApi { b : Bytes // b.length = identityPrvBytes } where
  getPrivateKey := Subtype.val
  loadPrivateKey b := if h : b.length = identityPrvBytes then some ⟨b, h⟩ else none
  getPrivateKey_length := Subtype.property
  load_get i := dif_pos i.2

/-- What one boot brings along: the code presented, the identity a generation would give (`none`
when key generation fails) and the salt and IV a sealing would draw. -/
structure Boot (I : Type) where
  /-- `THICKET_IDENTITY_CODE`. -/
  code : Bytes
  /-- `RNS::Identity()`. -/
  generated : Option I
  /-- First `random(16)` of `password_protect`. -/
  salt : Nonce
  /-- Second `random(16)` of `password_protect`. -/
  iv : Nonce

/-- The vault a boot would seal its generated identity `i` in. -/
def Boot.vault {I : Type} (P : Primitives) (A : IdentityApi I) (b : Boot I) (i : I) : Bytes :=
  passwordProtect P b.salt b.iv b.code (A.getPrivateKey i)

/-- `vault_tries_read`: a missing or unreadable counter reads as zero. -/
def vaultTriesRead : FileProg UInt8 := do
  if !(← fileExists .tries) then return 0
  let b ← readFile .tries
  return b.headD 0

/-- `vault_tries_write`: the result of the write is discarded. -/
def vaultTriesWrite (n : UInt8) : FileProg Unit := do
  let _ ← writeFile .tries [n]

variable {I : Type} (P : Primitives) (A : IdentityApi I)

/-- `vault_open`; the identity loaded, `none` for every `return false`. -/
def vaultOpen (code : Bytes) : FileProg (Option I) := do
  let tried ← vaultTriesRead
  if tried ≥ vaultMaxTries then return none
  -- the increment is persisted before the code is tested
  vaultTriesWrite (tried + 1)
  let file ← readFile .identity
  match passwordOpen P code file identityPrvBytes with
  | none =>
      let left := vaultMaxTries - tried - 1
      if left = 0 then removeFile .identity
      return none
  | some prv =>
      match A.loadPrivateKey prv with
      | none => return none
      | some i =>
          removeFile .tries
          return some i

/-- `vault_seal`. -/
def vaultSeal (b : Boot I) (i : I) : FileProg Bool := do
  let prv := A.getPrivateKey i
  if prv.length ≠ identityPrvBytes then return false
  let file := passwordProtect P b.salt b.iv b.code prv
  let written ← writeFile .identity file
  return written == file.length

/-- `bringup_identity`; the identity the device comes up with, `none` when it does not. -/
def bringupIdentity (b : Boot I) : FileProg (Option I) := do
  if ← fileExists .identity then
    vaultOpen P A b.code
  else
    match b.generated with
    | none => return none
    | some i =>
        if !(← vaultSeal P A b i) then return none
        return some i

/-! ## The requests, laid out -/

/-- `vault_tries_read`, request by request. -/
theorem vaultTriesRead_eq : vaultTriesRead = .ask (.fileExists .tries) fun
    | true => .ask (.readFile .tries) fun b => .done (b.headD 0)
    | false => .done 0 := by
  unfold vaultTriesRead fileExists readFile
  simp only [Prog.ask_bind, Prog.done_bind, Prog.pure_eq]
  congr
  funext e
  cases e <;> rfl

/-- `vault_open` after the counter is read, request by request. -/
def vaultAttempt (code : Bytes) (tried : UInt8) : FileProg (Option I) :=
  if tried ≥ vaultMaxTries then .done none
  else
    .ask (.writeFile .tries [tried + 1]) fun _ =>
      .ask (.readFile .identity) fun file =>
        match passwordOpen P code file identityPrvBytes with
        | none =>
            if vaultMaxTries - tried - 1 = 0 then
              .ask (.removeFile .identity) fun _ => .done none
            else .done none
        | some prv =>
            match A.loadPrivateKey prv with
            | none => .done none
            | some i => .ask (.removeFile .tries) fun _ => .done (some i)

/-- `vault_open` reads the counter and makes one attempt. -/
theorem vaultOpen_eq (code : Bytes) :
    vaultOpen P A code = vaultTriesRead >>= vaultAttempt P A code := by
  unfold vaultOpen vaultAttempt vaultTriesWrite readFile writeFile removeFile
  simp only [Prog.ask_bind, Prog.done_bind, Prog.pure_eq]

/-- `vault_seal` writes one file; the key has the length it checks for. -/
theorem vaultSeal_eq (b : Boot I) (i : I) :
    vaultSeal P A b i =
      .ask (.writeFile .identity (passwordProtect P b.salt b.iv b.code (A.getPrivateKey i)))
        fun written => .done (written ==
          (passwordProtect P b.salt b.iv b.code (A.getPrivateKey i)).length) := by
  unfold vaultSeal writeFile
  simp only [A.getPrivateKey_length, ne_eq, not_true_eq_false, if_false, Prog.ask_bind,
    Prog.done_bind, Prog.pure_eq]

/-- `bringup_identity`, request by request. -/
theorem bringupIdentity_eq (b : Boot I) :
    bringupIdentity P A b = .ask (.fileExists .identity) fun
      | true => vaultOpen P A b.code
      | false =>
          match b.generated with
          | none => .done none
          | some i =>
              .ask (.writeFile .identity
                  (passwordProtect P b.salt b.iv b.code (A.getPrivateKey i)))
                fun written => .done (if written ==
                  (passwordProtect P b.salt b.iv b.code (A.getPrivateKey i)).length
                  then some i else none) := by
  unfold bringupIdentity fileExists
  simp only [vaultSeal_eq, Prog.ask_bind, Prog.done_bind, Prog.pure_eq]
  congr
  funext e
  cases e
  · cases b.generated with
    | none => rfl
    | some i =>
      simp only [Bool.false_eq_true, if_false]
      congr
      funext written
      cases hw : (written == (passwordProtect P b.salt b.iv b.code (A.getPrivateKey i)).length) <;>
        rfl
  · rfl

/-! ## The flash -/

/-- The two files, `none` for a missing one. -/
structure Flash where
  /-- The vault. -/
  identity : Option Bytes := none
  /-- The attempt counter. -/
  tries : Option Bytes := none
  deriving DecidableEq

namespace Flash

/-- The content of a file. -/
def get (f : Flash) : Path → Option Bytes
  | .identity => f.identity
  | .tries => f.tries

/-- Replace or remove a file. -/
def set (f : Flash) (content : Option Bytes) : Path → Flash
  | .identity => { f with identity := content }
  | .tries => { f with tries := content }

/-- One file operation. `ok` decides whether a write goes through; one that does not writes
nothing and leaves the old content in place. -/
def handle (f : Flash) : (r : FileReq) → (ok : Bool) → r.Resp × Flash
  | .fileExists p, _ => ((f.get p).isSome, f)
  | .readFile p, _ => ((f.get p).getD [], f)
  | .writeFile p data, true => (data.length, f.set (some data) p)
  | .writeFile _ _, false => (0, f)
  | .removeFile p, _ => ((), f.set none p)

/-- The number of tries `vault_tries_read` would return. -/
def triesValue (f : Flash) : UInt8 := (f.tries.getD []).headD 0

end Flash

end Thicket.Vault
