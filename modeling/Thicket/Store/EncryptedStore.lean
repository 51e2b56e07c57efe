import Thicket.Base.Program
import Thicket.Base.Runs
import Thicket.Vault.Password

/-! # Encryption at rest

`lib/EncryptedStore/src/encrypted_store.{h,cpp}`: a blob is version, IV, ciphertext and a MAC over
all of them, under two keys derived from the identity. HKDF comes from microReticulum and is a
parameter, as HMAC and CTR are. A blob opens exactly when it was sealed under the identity, whoever
wrote it and whatever version it says. -/

namespace Thicket.Store

open Vault

/-- What `encrypted_store.cpp` uses of the libraries. -/
structure StorePrimitives extends Primitives where
  /-- `hkdf(length, derive_from, salt)`. -/
  hkdf : Nat → Bytes → Bytes → Bytes
  /-- It gives as many bytes as it is asked for. -/
  hkdf_length : ∀ n ikm salt, (hkdf n ikm salt).length = n

/-- What it uses of an identity. -/
structure Owner where
  /-- `encryptionPrivateKey()`. -/
  encryptionPrivateKey : Bytes
  /-- `hash()`. -/
  hash : Bytes
  deriving DecidableEq

/-- `ENCSTORE_FILE_VERSION`. -/
def encstoreFileVersion : UInt8 := 0x01
/-- `ENCSTORE_FILE_OVERHEAD`. -/
def encstoreFileOverhead : Nat := 49

variable (P : StorePrimitives)

/-- `derive_keys`. -/
def deriveKeys (id : Owner) : Bytes := P.hkdf 64 id.encryptionPrivateKey id.hash

/-- `out[0:32]`, the encryption key. -/
def cipherKey (id : Owner) : Bytes := (deriveKeys P id).take 32
/-- `out[32:64]`, the authentication key. -/
def authKey (id : Owner) : Bytes := (deriveKeys P id).drop 32

/-- `compute_mac`. -/
def computeMac (key : Bytes) (version : UInt8) (iv ct : Bytes) : Bytes :=
  P.hmac key ([version] ++ iv ++ ct)

/-- **`encstore_encrypt`**: `iv` is `random(16)`, `allocated` says whether `malloc` succeeds. -/
def encstoreEncrypt (id : Owner) (data : Bytes) (iv : Nonce) (allocated : Bool) : Option Bytes :=
  if allocated then
    let ct := P.ctr (cipherKey P id) iv data
    let mac := computeMac P (authKey P id) encstoreFileVersion iv ct
    some (encstoreFileVersion :: (iv ++ ct ++ mac))
  else none

/-- **`encstore_decrypt`.** -/
def encstoreDecrypt (id : Owner) (blob : Bytes) : Option Bytes :=
  if blob.length < encstoreFileOverhead then none
  else
    let ctlen := blob.length - encstoreFileOverhead
    let version := blob.headD 0
    let iv := (blob.drop 1).take 16
    let ct := (blob.drop 17).take ctlen
    let macStored := (blob.drop (17 + ctlen)).take 32
    let macExpected := computeMac P (authKey P id) version iv ct
    if !ctEqual macExpected macStored then none
    else some (P.ctr (cipherKey P id) iv ct)

/-! ## What opens -/

/-- A blob sealed under an identity, with any version byte. -/
def sealed (id : Owner) (version : UInt8) (iv : Nonce) (data : Bytes) : Bytes :=
  version :: (iv ++ P.ctr (cipherKey P id) iv data
    ++ computeMac P (authKey P id) version iv (P.ctr (cipherKey P id) iv data))

/-- What `encstore_encrypt` gives. -/
theorem encstoreEncrypt_eq (id : Owner) (data : Bytes) (iv : Nonce) :
    encstoreEncrypt P id data iv true = some (sealed P id encstoreFileVersion iv data) := rfl

/-- A sealed blob is the data and 49 bytes more. -/
@[simp] theorem length_sealed (id : Owner) (version : UInt8) (iv : Nonce) (data : Bytes) :
    (sealed P id version iv data).length = data.length + encstoreFileOverhead := by
  simp only [sealed, computeMac, List.length_cons, List.length_append, iv.2, P.ctr_length,
    P.hmac_length, encstoreFileOverhead]
  omega

/-- `encstore_decrypt` on a blob given by its fields: check the MAC, then decrypt. -/
theorem encstoreDecrypt_fields (id : Owner) (version : UInt8) {iv ct mac : Bytes}
    (hiv : iv.length = 16) (hmac : mac.length = 32) :
    encstoreDecrypt P id (version :: (iv ++ ct ++ mac))
      = if computeMac P (authKey P id) version iv ct = mac
        then some (P.ctr (cipherKey P id) iv ct) else none := by
  have hlen : (version :: (iv ++ ct ++ mac)).length = ct.length + encstoreFileOverhead := by
    simp only [List.length_cons, List.length_append, hiv, hmac, encstoreFileOverhead]
    omega
  have hi : ((version :: (iv ++ ct ++ mac)).drop 1).take 16 = iv := by
    simpa using slice_middle [version] iv (ct ++ mac) rfl hiv
  have hc : ((version :: (iv ++ ct ++ mac)).drop 17).take ct.length = ct := by
    simpa using slice_middle (i := 17) (version :: iv) ct mac (by simp [hiv]) rfl
  have hm : ((version :: (iv ++ ct ++ mac)).drop (17 + ct.length)).take 32 = mac := by
    have h := slice_middle (i := 17 + ct.length) (version :: (iv ++ ct)) mac []
      (by simp only [List.length_cons, List.length_append, hiv]; omega) hmac
    simpa using h
  have hsame : ctEqual (computeMac P (authKey P id) version iv ct) mac = true ↔
      computeMac P (authKey P id) version iv ct = mac :=
    ctEqual_iff ((P.hmac_length _ _).trans hmac.symm)
  rw [encstoreDecrypt, hlen, if_neg (Nat.not_lt.mpr (Nat.le_add_left _ _)), Nat.add_sub_cancel]
  dsimp only
  rw [hi, hc, hm, List.headD_cons]
  by_cases h : computeMac P (authKey P id) version iv ct = mac
  · rw [hsame.mpr h, if_pos h]
    rfl
  · rw [Bool.eq_false_iff.mpr fun hc => h (hsame.mp hc), if_neg h]
    rfl

/-- **Sealing round trip.** -/
theorem encstoreDecrypt_sealed (id : Owner) (version : UInt8) (iv : Nonce) (data : Bytes) :
    encstoreDecrypt P id (sealed P id version iv data) = some data := by
  rw [sealed, encstoreDecrypt_fields P id version iv.2 (by exact P.hmac_length _ _), if_pos rfl,
    P.ctr_ctr]

/-- A blob that opens was sealed. -/
theorem exists_sealed {id : Owner} {blob data : Bytes} (h : encstoreDecrypt P id blob = some data) :
    ∃ version iv, blob = sealed P id version iv data := by
  have hlong : encstoreFileOverhead ≤ blob.length := by
    by_contra hshort
    rw [encstoreDecrypt, if_pos (Nat.not_le.mp hshort)] at h
    cases h
  have h49 : encstoreFileOverhead = 49 := rfl
  -- cut the blob into its four fields
  obtain ⟨version, rest, rfl⟩ : ∃ version rest, blob = version :: rest :=
    List.exists_cons_of_length_pos (by omega)
  rw [List.length_cons] at hlong
  let ctlen := rest.length - 48
  have hfields : rest
      = rest.take 16 ++ (rest.drop 16).take ctlen ++ (rest.drop 16).drop ctlen := by
    rw [List.append_assoc, List.take_append_drop, List.take_append_drop]
  have hiv : (rest.take 16).length = 16 := by
    rw [List.length_take]
    omega
  have hmac : ((rest.drop 16).drop ctlen).length = 32 := by
    simp only [List.length_drop, ctlen]
    omega
  rw [hfields, encstoreDecrypt_fields P id version hiv hmac] at h
  split at h
  next hsame =>
    have hdata := Option.some.inj h
    refine ⟨version, ⟨rest.take 16, hiv⟩, ?_⟩
    rw [sealed, ← hdata, P.ctr_ctr, hsame, ← hfields]
  · cases h

/-- **What opens is what was sealed**: an identity opens a blob to `data` exactly when the blob is
`data` sealed under it, for some IV and some version byte. -/
theorem encstoreDecrypt_eq_some_iff (id : Owner) (blob data : Bytes) :
    encstoreDecrypt P id blob = some data ↔ ∃ version iv, blob = sealed P id version iv data := by
  constructor
  · exact exists_sealed P
  · rintro ⟨version, iv, rfl⟩
    exact encstoreDecrypt_sealed P id version iv data

/-- **Another identity** opens the blob only where the MACs under the two keys are the same. -/
theorem isSome_encstoreDecrypt_sealed (id id' : Owner) (version : UInt8) (iv : Nonce)
    (data : Bytes) :
    (encstoreDecrypt P id' (sealed P id version iv data)).isSome = true ↔
      computeMac P (authKey P id') version iv (P.ctr (cipherKey P id) iv data)
        = computeMac P (authKey P id) version iv (P.ctr (cipherKey P id) iv data) := by
  rw [sealed, encstoreDecrypt_fields P id' version iv.2 (by exact P.hmac_length _ _)]
  split
  next hsame => exact iff_of_true rfl hsame
  next hdiffer => exact iff_of_false (by simp) hdiffer

/-! ## Files -/

/-- A file operation, over paths `κ`. -/
inductive FileReq (κ : Type) where
  /-- `read_file`. -/
  | readFile (p : κ)
  /-- `write_file`. -/
  | writeFile (p : κ) (data : Bytes)
  /-- `remove_file`. -/
  | removeFile (p : κ)
  /-- `open_file`, for reading, and the size of the file. -/
  | fileSize (p : κ)

/-- What the caller learns: the bytes read (their number is the return value, zero for a missing
file), the number of bytes written, nothing it looks at, the size of a file that is there. -/
abbrev FileReq.Resp {κ : Type} : FileReq κ → Type
  | .readFile _ => Bytes
  | .writeFile _ _ => Nat
  | .removeFile _ => Unit
  | .fileSize _ => Option Nat

variable {κ : Type}

/-- A program over the files. -/
abbrev FileProg (κ : Type) (α : Type) : Type := Prog (FileReq κ) FileReq.Resp α

/-- `OS::read_file(p, ..)`. -/
def readFile (p : κ) : FileProg κ Bytes := .ask (.readFile p) .done
/-- `OS::write_file(p, data)`. -/
def writeFile (p : κ) (data : Bytes) : FileProg κ Nat := .ask (.writeFile p data) .done
/-- `OS::remove_file(p)`. -/
def removeFile (p : κ) : FileProg κ Unit := .ask (.removeFile p) .done
/-- `OS::open_file(p, ModeRead)` and `f.size()`. -/
def fileSize (p : κ) : FileProg κ (Option Nat) := .ask (.fileSize p) .done

/-- **`encstore_write`.** -/
def encstoreWrite (p : κ) (id : Owner) (data : Bytes) (iv : Nonce) (allocated : Bool) :
    FileProg κ Bool := do
  match encstoreEncrypt P id data iv allocated with
  | none => return false
  | some fileData =>
      let written ← writeFile p fileData
      return written == fileData.length

/-- What `encstore_read` makes of the bytes it has read, for a plaintext of `len` bytes. -/
def readBack (id : Owner) (len : Nat) (fileData : Bytes) : Option Bytes :=
  if fileData.length ≠ len + encstoreFileOverhead then none
  else
    match encstoreDecrypt P id fileData with
    | none => none
    | some plain => if plain.length ≠ len then none else some plain

/-- **`encstore_read`.** -/
def encstoreRead (p : κ) (id : Owner) (len : Nat) : FileProg κ (Option Bytes) := do
  let fileData ← readFile p
  return readBack P id len fileData

/-- **`encstore_size`.** -/
def encstoreSize (p : κ) : FileProg κ Nat := do
  match ← fileSize p with
  | none => return 0
  | some sz => return if sz > encstoreFileOverhead then sz - encstoreFileOverhead else 0

/-- The files. -/
abbrev Files (κ : Type) : Type := κ → Option Bytes

/-- How a write ends: the number of bytes that `OS::write_file` returns, and what it leaves in the
file. -/
structure WriteEnd where
  /-- The number. -/
  written : Nat
  /-- What is left, unless the number is that of all the bytes. -/
  left : Option Bytes

/-- One file operation. A write that returns the number of all its bytes has written them; any other
leaves anything, or nothing, of the file. -/
def Files.handle [DecidableEq κ] : (r : FileReq κ) → WriteEnd → Files κ → r.Resp × Files κ
  | .readFile p, _, f => ((f p).getD [], f)
  | .writeFile p data, e, f =>
      (e.written, Function.update f p (if e.written = data.length then some data else e.left))
  | .removeFile p, _, f => ((), Function.update f p none)
  | .fileSize p, _, f => ((f p).map List.length, f)

/-! ## A store of plaintexts -/

/-- What a caller does with the store of one identity. -/
inductive Op (κ : Type) where
  /-- `encstore_write`, where the write to the file ends in a certain way. -/
  | write (p : κ) (data : Bytes) (iv : Nonce) (allocated : Bool) (ends : WriteEnd)
  /-- `encstore_read`. -/
  | read (p : κ) (len : Nat)
  /-- `encstore_size`. -/
  | size (p : κ)
  /-- The file is removed. -/
  | remove (p : κ)

/-- What it is told. -/
inductive Reply where
  /-- Whether the write succeeded. -/
  | wrote (ok : Bool)
  /-- The plaintext, nothing for `false`. -/
  | got (data : Option Bytes)
  /-- The size. -/
  | sized (n : Nat)
  /-- Nothing. -/
  | removed
  deriving DecidableEq

/-- What a path stands for. -/
inductive Slot where
  /-- No file. -/
  | absent
  /-- A plaintext. -/
  | holds (data : Bytes)
  /-- A file that does not open, and the bytes of it that would be ciphertext. -/
  | damaged (size : Nat)
  deriving DecidableEq

namespace Slot

/-- What is read from it. -/
def read (len : Nat) : Slot → Option Bytes
  | absent => none
  | holds data => if data.length = len then some data else none
  | damaged _ => none

/-- Its size. -/
def size : Slot → Nat
  | absent => 0
  | holds data => data.length
  | damaged n => n

end Slot

/-- What a file stands for. -/
def slotOf (id : Owner) : Option Bytes → Slot
  | none => .absent
  | some blob =>
      match encstoreDecrypt P id blob with
      | some data => .holds data
      | none => .damaged (blob.length - encstoreFileOverhead)

/-- What the files stand for. -/
def slots (id : Owner) (f : Files κ) : κ → Slot := fun p => slotOf P id (f p)

namespace Op

/-- The program of an operation. -/
def prog (id : Owner) : Op κ → FileProg κ Reply
  | write p data iv allocated _ => do return .wrote (← encstoreWrite P p id data iv allocated)
  | read p len => do return .got (← encstoreRead P p id len)
  | size p => do return .sized (← encstoreSize p)
  | remove p => do
      let _ ← removeFile p
      return .removed

/-- How its write ends. -/
def ends : Op κ → WriteEnd
  | write _ _ _ _ e => e
  | _ => ⟨0, none⟩

variable [DecidableEq κ]

/-- An operation on the files. -/
def exec (id : Owner) (f : Files κ) (op : Op κ) : Option Reply × Files κ :=
  Prog.exec Files.handle [op.ends] f (op.prog P id)

/-- **What the store is for**: the operation on a map from paths to plaintexts. A write that fails
leaves what the file then stands for, and is reported. -/
def spec (id : Owner) (s : κ → Slot) : Op κ → Reply × (κ → Slot)
  | write p data _ allocated e =>
      if !allocated then (.wrote false, s)
      else if e.written = data.length + encstoreFileOverhead then
        (.wrote true, Function.update s p (.holds data))
      else (.wrote false, Function.update s p (slotOf P id e.left))
  | read p len => (.got ((s p).read len), s)
  | size p => (.sized (s p).size, s)
  | remove p => (.removed, Function.update s p .absent)

end Op

variable {P} {id : Owner} {f : Files κ}

/-- A sealed file holds its plaintext. -/
theorem slotOf_sealed (version : UInt8) (iv : Nonce) (data : Bytes) :
    slotOf P id (some (sealed P id version iv data)) = .holds data := by
  rw [slotOf, encstoreDecrypt_sealed]

/-- **What is read back of a file** is what it stands for. -/
theorem readBack_getD (len : Nat) (file : Option Bytes) :
    readBack P id len (file.getD []) = (slotOf P id file).read len := by
  cases file with
  | none =>
    have hpos : ([] : Bytes).length ≠ len + encstoreFileOverhead := by
      rw [List.length_nil, encstoreFileOverhead]
      omega
    rw [Option.getD_none, readBack, if_pos hpos]
    rfl
  | some blob =>
    rw [Option.getD_some, readBack, slotOf]
    cases hopen : encstoreDecrypt P id blob with
    | none => simp [Slot.read]
    | some data =>
      obtain ⟨version, iv, rfl⟩ := exists_sealed P hopen
      by_cases hlen : data.length = len
      · simp [Slot.read, hlen]
      · simp [Slot.read, hlen]

/-- **The size of a file** is that of what it stands for. -/
theorem size_slotOf (file : Option Bytes) :
    (slotOf P id file).size
      = (file.map fun blob => blob.length - encstoreFileOverhead).getD 0 := by
  cases file with
  | none => rfl
  | some blob =>
    rw [slotOf]
    cases hopen : encstoreDecrypt P id blob with
    | none => rfl
    | some data =>
      obtain ⟨version, iv, rfl⟩ := exists_sealed P hopen
      simp [Slot.size]

variable [DecidableEq κ]

/-- A file is replaced, and what it stands for. -/
theorem slots_update (p : κ) (file : Option Bytes) :
    slots P id (Function.update f p file)
      = Function.update (slots P id f) p (slotOf P id file) := by
  funext q
  rcases eq_or_ne q p with rfl | hne
  · simp [slots]
  · simp [slots, hne]

/-- A write, request by request. -/
theorem exec_write (p : κ) (data : Bytes) (iv : Nonce) (e : WriteEnd) :
    (Op.write p data iv true e).exec P id f
      = (some (.wrote (e.written == data.length + encstoreFileOverhead)),
        Function.update f p (if e.written = data.length + encstoreFileOverhead then
          some (sealed P id encstoreFileVersion iv data) else e.left)) := by
  rw [← length_sealed P id encstoreFileVersion iv data]
  rfl

/-- A read leaves the files. -/
theorem exec_read (p : κ) (len : Nat) : (Op.read p len).exec P id f
    = (some (.got (readBack P id len ((f p).getD []))), f) := rfl

/-- So does asking for a size. -/
theorem exec_size (p : κ) : (Op.size p).exec P id f
    = (some (.sized (((f p).map fun blob => blob.length - encstoreFileOverhead).getD 0)), f) := by
  rw [Op.exec, Op.prog, encstoreSize, fileSize]
  cases hf : f p with
  | none => simp [Files.handle, hf, Op.ends]
  | some blob =>
    by_cases hlong : blob.length > encstoreFileOverhead
    · simp [Files.handle, hf, Op.ends, hlong]
    · simp [Files.handle, hf, Op.ends, hlong, Nat.sub_eq_zero_of_le (Nat.not_lt.mp hlong)]

/-- **One operation.** -/
theorem exec_refines (f : Files κ) (op : Op κ) :
    (op.exec P id f).1 = some (op.spec P id (slots P id f)).1 ∧
      slots P id (op.exec P id f).2 = (op.spec P id (slots P id f)).2 := by
  cases op with
  | write p data iv allocated e =>
    cases allocated with
    | false => exact ⟨rfl, rfl⟩
    | true =>
      rw [exec_write, Op.spec, slots_update]
      by_cases hfull : e.written = data.length + encstoreFileOverhead
      · simp [hfull, slotOf_sealed]
      · simp [hfull]
  | read p len =>
    rw [exec_read, readBack_getD]
    exact ⟨rfl, rfl⟩
  | size p =>
    have hsize : (slotOf P id (f p)).size = _ := size_slotOf (f p)
    rw [exec_size, ← hsize]
    exact ⟨rfl, rfl⟩
  | remove p => exact ⟨rfl, slots_update p none⟩

/-- A session with the files. -/
def session (P : StorePrimitives) (id : Owner) (f : Files κ) (ops : List (Op κ)) :
    List (Option Reply) × Files κ :=
  (Runs.outputs (fun f op => (Op.exec P id f op).2) (fun f op => [(Op.exec P id f op).1]) f ops,
    Runs.run (fun f op => (Op.exec P id f op).2) f ops)

/-- **The files are a store of plaintexts.** Over any session of one identity with any files, with
writes that fail and leave anything and with memory that runs out, every operation is answered as a
map from paths to plaintexts would answer it, and the files stand for that map. -/
theorem session_refines (P : StorePrimitives) (id : Owner) (f : Files κ) (ops : List (Op κ)) :
    (session P id f ops).1
        = Runs.outputs (fun s op => (Op.spec P id s op).2)
            (fun s op => [some (Op.spec P id s op).1]) (slots P id f) ops ∧
      slots P id (session P id f ops).2
        = Runs.run (fun s op => (Op.spec P id s op).2) (slots P id f) ops := by
  have hstep : ∀ (f : Files κ) (s : κ → Slot) (op : Op κ), slots P id f = s →
      slots P id (op.exec P id f).2 = (op.spec P id s).2 := by
    rintro f - op rfl
    exact (exec_refines f op).2
  refine ⟨?_, Runs.run_simulation (fun f s => slots P id f = s) hstep rfl ops⟩
  refine Runs.outputs_simulation (fun f s => slots P id f = s) hstep ?_ rfl ops
  rintro f - op rfl
  rw [(exec_refines f op).1]

/-- Transparent primitives: the derived keys are the private key. -/
def StorePrimitives.transparent : StorePrimitives where
  toPrimitives := .transparent
  hkdf n ikm _ := (ikm ++ List.replicate n 0).take n
  hkdf_length n ikm _ := by simp

/-- An owner with the shortest of keys. -/
def Owner.shortest : Owner := ⟨[7], [9]⟩

/-- An IV of zeros. -/
def zeroNonce : Nonce := ⟨[0, 0, 0, 0, 0, 0, 0, 0, 0, 0, 0, 0, 0, 0, 0, 0], rfl⟩

/-- Two files: one is written over and then spoiled by a write that stops after three bytes, the
other removed. -/
theorem session_refines_two :
    slots .transparent .shortest (session .transparent .shortest (fun _ : Bool => none)
      [.write true [1] zeroNonce true ⟨50, none⟩, .write false [2] zeroNonce true ⟨50, none⟩,
        .write true [3] zeroNonce true ⟨3, some [1, 0, 0]⟩, .remove false]).2
      = Function.update (fun _ => .absent) true (.damaged 0) := by
  rw [(session_refines .transparent .shortest _ _).2]
  funext b
  cases b <;> rfl

end Thicket.Store
