import Thicket.Store.EncryptedStore

/-! # The self-test of the message store

`bringup_lxmf` in `src/main.cpp`, before the store is reported as attached: a probe the size of a
message is sealed, written, read back and opened, and the first step that fails is reported. -/

namespace Thicket.Store

open Vault

/-- `probe`. -/
def probe : Bytes := (List.range 512).map fun i => UInt8.ofNat (i * 31 + 7)

/-- `why`. -/
inductive Why where
  /-- The probe could not be sealed. -/
  | encrypt
  /-- The file was not written in full. -/
  | write
  /-- The file that is read back has another size. -/
  | read
  /-- What is read back does not open. -/
  | authenticate
  /-- It opens to something else. -/
  | differs
  deriving DecidableEq

/-- The line that is printed. -/
def Why.text : Why → String
  | encrypt => "codec could not encrypt - out of memory?"
  | write => "could not write a message-sized file (see free space below)"
  | read => "wrote the file but could not read it back"
  | authenticate => "stored file failed authentication - decode path is broken"
  | differs => "round trip returned different bytes - codec is not lossless"

variable (P : StorePrimitives) {κ : Type}

/-- What is made of the bytes that are read back. -/
def judge (id : Owner) (size : Nat) (readBack : Bytes) : Option Why :=
  if readBack.length ≠ size then some .read
  else
    match encstoreDecrypt P id readBack with
    | none => some .authenticate
    | some opened => if opened ≠ probe then some .differs else none

/-- The five steps; nothing for a store that can store. -/
def roundTrip (probePath : κ) (id : Owner) (iv : Nonce) (allocated : Bool) :
    FileProg κ (Option Why) := do
  match encstoreEncrypt P id probe iv allocated with
  | none => return some .encrypt
  | some blob =>
      let written ← writeFile probePath blob
      if written ≠ blob.length then return some .write
      let readBack ← readFile probePath
      return judge P id blob.length readBack

/-- **The self-test**: the probe is removed whatever became of it. -/
def selfTest (probePath : κ) (id : Owner) (iv : Nonce) (allocated : Bool) :
    FileProg κ (Option Why) := do
  let why ← roundTrip P probePath id iv allocated
  removeFile probePath
  return why

@[simp] theorem length_probe : probe.length = 512 := by simp [probe]

variable {P}

/-- The bytes read back pass when they are the probe, sealed. -/
theorem judge_eq_none_iff (id : Owner) (readBack : Bytes) :
    judge P id (512 + encstoreFileOverhead) readBack = none ↔
      ∃ version iv, readBack = sealed P id version iv probe := by
  rw [judge]
  constructor
  · intro h
    split at h
    · cases h
    split at h
    · cases h
    next opened hopened =>
      split at h
      · cases h
      next hsame => exact exists_sealed P (hopened.trans (congrArg some (not_not.mp hsame)))
  · rintro ⟨version, iv, rfl⟩
    rw [length_sealed, length_probe, if_neg (not_not.mpr rfl), encstoreDecrypt_sealed]
    simp

/-- The self-test, request by request. -/
theorem selfTest_eq (probePath : κ) (id : Owner) (iv : Nonce) :
    selfTest P probePath id iv true
      = .ask (.writeFile probePath (sealed P id encstoreFileVersion iv probe)) fun written =>
          if written ≠ 512 + encstoreFileOverhead then
            .ask (.removeFile probePath) fun _ => .done (some .write)
          else .ask (.readFile probePath) fun readBack =>
            .ask (.removeFile probePath) fun _ =>
              .done (judge P id (512 + encstoreFileOverhead) readBack) := by
  rw [selfTest, roundTrip, encstoreEncrypt_eq]
  dsimp only
  rw [length_sealed, length_probe, writeFile, removeFile, readFile, Prog.ask_bind, Prog.ask_bind]
  congr
  funext written
  rw [Prog.done_bind]
  split <;> rfl

/-- Without memory. -/
theorem selfTest_unallocated (probePath : κ) (id : Owner) (iv : Nonce) :
    selfTest P probePath id iv false
      = .ask (.removeFile probePath) fun _ => .done (some .encrypt) := rfl

/-- The file a request is about. -/
def FileReq.path : FileReq κ → κ
  | .readFile p => p
  | .writeFile p _ => p
  | .removeFile p => p
  | .fileSize p => p

/-- What is promised of a self-test, for the requests it made and its verdict. -/
structure Verdict (P : StorePrimitives) (probePath : κ) (id : Owner) (iv : Nonce)
    (said : List (Prog.Access (FileReq κ) FileReq.Resp)) (why : Option Why) : Prop where
  /-- No other file is touched. -/
  only : ∀ a ∈ said, a.1.path = probePath
  /-- Its last request removes the probe. -/
  removes : said.getLast?.map (·.1) = some (.removeFile probePath)
  /-- It passes when the sealed probe was written in full and what was read back is the probe,
  sealed. -/
  passes : why = none ↔ ∃ version iv',
    said = [⟨.writeFile probePath (sealed P id encstoreFileVersion iv probe),
        (512 + encstoreFileOverhead : Nat)⟩,
      ⟨.readFile probePath, sealed P id version iv' probe⟩, ⟨.removeFile probePath, ()⟩]

/-- **The self-test is right about any storage.** Whatever the files answer, it passes exactly when
the sealed probe was taken in full and came back as a blob that opens to the probe; it touches no
file but its own and ends by removing it. -/
theorem selfTest_verdict (probePath : κ) (id : Owner) (iv : Nonce) (allocated : Bool) :
    (selfTest P probePath id iv allocated).Always (Verdict P probePath id iv) := by
  cases allocated with
  | false =>
    rw [selfTest_unallocated, Prog.always_ask]
    intro removed
    exact ⟨by simp [FileReq.path], rfl, by simp⟩
  | true =>
    rw [selfTest_eq, Prog.always_ask]
    intro written
    split
    next hshort =>
      -- the write fell short: the probe is removed at once
      intro removed
      refine ⟨by simp [FileReq.path], rfl, by simp⟩
    next hfull =>
      obtain rfl : written = 512 + encstoreFileOverhead := not_not.mp hfull
      intro readBack removed
      refine ⟨by simp [FileReq.path], rfl, ?_⟩
      rw [judge_eq_none_iff]
      refine exists_congr fun version => exists_congr fun iv' => ?_
      simp

/-- On files that keep what is written, it passes when there is memory and the write goes through,
and it leaves every file but the probe as it was. -/
theorem exec_selfTest [DecidableEq κ] (f : Files κ) (probePath : κ) (id : Owner) (iv : Nonce)
    (allocated : Bool) (e e' e'' : WriteEnd) :
    Prog.exec Files.handle [e, e', e''] f (selfTest P probePath id iv allocated)
      = (some (if allocated then
            if e.written = 512 + encstoreFileOverhead then none else some .write
          else some .encrypt),
        Function.update f probePath none) := by
  cases allocated with
  | false => rfl
  | true =>
    rw [selfTest_eq]
    by_cases hfull : e.written = 512 + encstoreFileOverhead
    · have hpass : judge P id (512 + encstoreFileOverhead)
          (sealed P id encstoreFileVersion iv probe) = none :=
        (judge_eq_none_iff id _).mpr ⟨_, iv, rfl⟩
      simp [Files.handle, hpass, hfull]
    · simp [Files.handle, hfull]

end Thicket.Store
