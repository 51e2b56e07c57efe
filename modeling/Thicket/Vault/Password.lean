import Mathlib.Data.List.Basic
import Mathlib.Data.UInt

/-! # The sealed file format

`lib/Password/src/Password.{h,cpp}`: a file is version, salt, IV, ciphertext and a MAC over all of
them, under two keys stretched from the password. SHA-256 HMAC and AES-256-CTR come from the Crypto
library and are parameters here; the format, the key stretching and the comparison are the
source's. Allocation is taken to succeed. -/

namespace Thicket.Vault

/-- Bytes of a file, a key or a password. -/
abbrev Bytes : Type := List UInt8

/-- Sixteen random bytes: a salt or an IV. -/
abbrev Nonce : Type := { b : Bytes // b.length = 16 }

/-- What `Password.cpp` uses of the Crypto library. -/
structure Primitives where
  /-- HMAC-SHA256 of a message under a key. -/
  hmac : Bytes → Bytes → Bytes
  /-- The MAC is 32 bytes. -/
  hmac_length : ∀ key msg, (hmac key msg).length = 32
  /-- AES-256-CTR under a key and an IV; encryption and decryption are the same operation. -/
  ctr : Bytes → Bytes → Bytes → Bytes
  /-- The keystream is as long as the data. -/
  ctr_length : ∀ key iv data, (ctr key iv data).length = data.length
  /-- Applying the keystream twice gives the data back. -/
  ctr_ctr : ∀ key iv data, ctr key iv (ctr key iv data) = data

/-- `PBKDF2_ITERATIONS`. -/
def pbkdf2Iterations : Nat := 100000
/-- `PASSWORD_FILE_VERSION`. -/
def passwordFileVersion : UInt8 := 0x01
/-- `PASSWORD_FILE_OVERHEAD`. -/
def passwordFileOverhead : Nat := 65

/-- Bytewise exclusive or, the accumulation of PBKDF2. -/
def xorBytes (a b : Bytes) : Bytes := List.zipWith (· ^^^ ·) a b

/-- `ct_equal`: the or of all differences is zero. -/
def ctEqual (a b : Bytes) : Bool := (xorBytes a b).foldl (· ||| ·) 0 == 0

variable (P : Primitives)

/-- `pbkdf2_block`: `U1 = HMAC(pw, salt ‖ block)`, then `U_{i+1} = HMAC(pw, U_i)` accumulated. -/
def pbkdf2Block (pw salt : Bytes) (blockNum : UInt8) : Bytes :=
  let u := P.hmac pw (salt ++ [0, 0, 0, blockNum])
  ((fun uo : Bytes × Bytes => (P.hmac pw uo.1, xorBytes uo.2 (P.hmac pw uo.1)))^[
    pbkdf2Iterations - 1] (u, u)).2

/-- `pbkdf2_64`, first half: the encryption key. -/
def encKey (pw salt : Bytes) : Bytes := pbkdf2Block P pw salt 1

/-- `pbkdf2_64`, second half: the authentication key. -/
def macKey (pw salt : Bytes) : Bytes := pbkdf2Block P pw salt 2

/-- The authenticated part of a file: version, salt, IV, ciphertext. -/
def authPart (version : UInt8) (salt iv ct : Bytes) : Bytes := version :: (salt ++ (iv ++ ct))

/-- The file `password_protect` writes for the salt and IV it drew. -/
def passwordProtect (salt iv : Nonce) (password data : Bytes) : Bytes :=
  let ct := P.ctr (encKey P password salt) iv data
  let auth := authPart passwordFileVersion salt iv ct
  auth ++ P.hmac (macKey P password salt) auth

/-- `password_open` on the bytes `read_file` returned, for a plaintext of `len` bytes. -/
def passwordOpen (password file : Bytes) (len : Nat) : Option Bytes :=
  if file.length ≠ len + passwordFileOverhead then none
  else
    let version := file.headD 0
    let salt := (file.drop 1).take 16
    let iv := (file.drop 17).take 16
    let ct := (file.drop 33).take len
    let macStored := (file.drop (33 + len)).take 32
    let macExpected := P.hmac (macKey P password salt) (authPart version salt iv ct)
    if !ctEqual macExpected macStored then none
    else some (P.ctr (encKey P password salt) iv ct)

/-- The or of a list of bytes is zero iff each is. -/
theorem foldl_or_eq_zero (bs : Bytes) (b : UInt8) :
    bs.foldl (· ||| ·) b = 0 ↔ b = 0 ∧ ∀ x ∈ bs, x = 0 := by
  induction bs generalizing b with
  | nil => simp
  | cons x xs ih => simp [ih, UInt8.or_eq_zero_iff, and_assoc]

/-- **The comparison decides equality** of byte strings of one length. -/
theorem ctEqual_iff {a b : Bytes} (hlen : a.length = b.length) : ctEqual a b = true ↔ a = b := by
  rw [ctEqual, beq_iff_eq, foldl_or_eq_zero, xorBytes]
  induction a generalizing b with
  | nil => simp [List.length_eq_zero_iff.mp hlen.symm]
  | cons x xs ih =>
    cases b with
    | nil => simp at hlen
    | cons y ys =>
      have ih' := ih (b := ys) (by simpa using hlen)
      simp only [true_and] at ih'
      simp [ih']

/-- A field of known length is read back out of the middle of a file. -/
theorem slice_middle (pre mid post : Bytes) {i n : Nat} (hi : pre.length = i)
    (hn : mid.length = n) : ((pre ++ (mid ++ post)).drop i).take n = mid := by
  subst hi hn
  simp

/-- `password_open` on a file given by its five fields: check the MAC, then decrypt. -/
theorem passwordOpen_fields (password salt iv ct mac : Bytes) (version : UInt8)
    (hsalt : salt.length = 16) (hiv : iv.length = 16) (hmac : mac.length = 32) :
    passwordOpen P password (authPart version salt iv ct ++ mac) ct.length
      = if ctEqual (P.hmac (macKey P password salt) (authPart version salt iv ct)) mac
        then some (P.ctr (encKey P password salt) iv ct) else none := by
  have hlen : (authPart version salt iv ct ++ mac).length = ct.length + passwordFileOverhead := by
    simp only [authPart, List.length_append, List.length_cons, hsalt, hiv, hmac,
      passwordFileOverhead]
    omega
  have hs : ((authPart version salt iv ct ++ mac).drop 1).take 16 = salt := by
    simpa [authPart] using slice_middle [version] salt (iv ++ (ct ++ mac)) rfl hsalt
  have hi : ((authPart version salt iv ct ++ mac).drop 17).take 16 = iv := by
    simpa [authPart] using slice_middle (i := 17) (version :: salt) iv (ct ++ mac)
      (by simp [hsalt]) hiv
  have hc : ((authPart version salt iv ct ++ mac).drop 33).take ct.length = ct := by
    simpa [authPart] using slice_middle (i := 33) (version :: (salt ++ iv)) ct mac
      (by simp [hsalt, hiv]) rfl
  have hm : ((authPart version salt iv ct ++ mac).drop (33 + ct.length)).take 32 = mac := by
    have h := slice_middle (i := 33 + ct.length) (authPart version salt iv ct) mac []
      (by simp only [authPart, List.length_append, List.length_cons, hsalt, hiv]; omega) hmac
    rwa [List.append_nil] at h
  have hv : (authPart version salt iv ct ++ mac).headD 0 = version := rfl
  unfold passwordOpen
  rw [if_neg (not_not.mpr hlen), hs, hi, hc, hm, hv]
  dsimp only
  cases ctEqual (P.hmac (macKey P password salt) (authPart version salt iv ct)) mac <;> rfl

/-- **Sealing round trip.** A file opens under the password it was sealed with, and gives back the
data. -/
theorem passwordOpen_passwordProtect (salt iv : Nonce) (password data : Bytes) :
    passwordOpen P password (passwordProtect P salt iv password data) data.length = some data := by
  have hopen := passwordOpen_fields P password salt iv (P.ctr (encKey P password salt) iv data)
    (P.hmac (macKey P password salt)
      (authPart passwordFileVersion salt iv (P.ctr (encKey P password salt) iv data)))
    passwordFileVersion salt.2 iv.2 (P.hmac_length _ _)
  rw [P.ctr_length] at hopen
  rw [passwordProtect, hopen, if_pos ((ctEqual_iff rfl).mpr rfl), P.ctr_ctr]

/-! ## A transparent instance

Primitives simple enough to follow through the key stretching: the MAC shows the key it was made
under and the keystream is zero. Files open under the password they were sealed with and under no
other, which is all that a concrete run of the vault needs of them. -/

/-- The first 32 bytes, padded with zeros. -/
def pad32 (b : Bytes) : Bytes := (b ++ List.replicate 32 0).take 32

/-- A padded string has 32 bytes. -/
@[simp] theorem length_pad32 (b : Bytes) : (pad32 b).length = 32 := by simp [pad32]

/-- Padding twice is padding once. -/
@[simp] theorem pad32_pad32 (b : Bytes) : pad32 (pad32 b) = pad32 b := by
  conv_lhs => rw [pad32]
  exact List.take_left' (length_pad32 b)

/-- Zero for a message of digest size, as in every PBKDF2 iteration after the first; otherwise the
key. -/
def transparentHmac (key msg : Bytes) : Bytes :=
  if msg.length = 32 then List.replicate 32 0 else pad32 key

/-- The transparent primitives. -/
def Primitives.transparent : Primitives where
  hmac := transparentHmac
  hmac_length key msg := by
    unfold transparentHmac
    split <;> simp
  ctr _ _ data := data
  ctr_length _ _ _ := rfl
  ctr_ctr _ _ _ := rfl

/-- Or-ing in zeros changes nothing. -/
theorem xorBytes_zeros {u : Bytes} {n : Nat} (h : u.length = n) :
    xorBytes u (List.replicate n 0) = u := by
  subst h
  induction u with
  | nil => rfl
  | cons b bs ih => simpa [xorBytes, List.replicate_succ] using ih

/-- The stretched key is the padded password. -/
theorem pbkdf2Block_transparent (pw : Bytes) (salt : Nonce) (n : UInt8) :
    pbkdf2Block .transparent pw salt n = pad32 pw := by
  have hfirst : transparentHmac pw (salt ++ [0, 0, 0, n]) = pad32 pw := by
    simp [transparentHmac, salt.2]
  have hrest (k : Nat) (u : Bytes) (hu : u.length = 32) :
      ((fun uo : Bytes × Bytes => (transparentHmac pw uo.1,
        xorBytes uo.2 (transparentHmac pw uo.1)))^[k] (u, pad32 pw)).2 = pad32 pw := by
    induction k generalizing u with
    | zero => rfl
    | succ k ih =>
      have hzero : transparentHmac pw u = List.replicate 32 0 := by simp [transparentHmac, hu]
      rw [Function.iterate_succ_apply, hzero, xorBytes_zeros (length_pad32 pw)]
      exact ih _ List.length_replicate
  unfold pbkdf2Block
  simp only [Primitives.transparent, hfirst]
  exact hrest _ _ (length_pad32 pw)

/-- **A transparent file opens under its own password only** (up to padding). -/
theorem passwordOpen_transparent (salt iv : Nonce) (password password' data : Bytes)
    (hdata : data.length = 64) :
    passwordOpen .transparent password' (passwordProtect .transparent salt iv password data) 64
      = if pad32 password' = pad32 password then some data else none := by
  have hauth : (authPart passwordFileVersion salt iv data).length ≠ 32 := by
    simp [authPart, salt.2, iv.2, hdata]
  have hmac (pw : Bytes) : Primitives.transparent.hmac (macKey .transparent pw salt)
      (authPart passwordFileVersion salt iv data) = pad32 pw := by
    rw [macKey, pbkdf2Block_transparent]
    exact (if_neg hauth).trans (pad32_pad32 pw)
  have hopen := passwordOpen_fields .transparent password' salt iv data (pad32 password)
    passwordFileVersion salt.2 iv.2 (length_pad32 _)
  rw [hdata, hmac] at hopen
  rw [passwordProtect]
  change passwordOpen .transparent password' (authPart passwordFileVersion salt iv data
    ++ Primitives.transparent.hmac (macKey .transparent password salt)
      (authPart passwordFileVersion salt iv data)) 64 = _
  rw [hmac, hopen]
  by_cases h : pad32 password' = pad32 password
  · rw [if_pos ((ctEqual_iff (by simp)).mpr h), if_pos h]
    rfl
  · rw [if_neg (fun hc => h ((ctEqual_iff (by simp)).mp hc)), if_neg h]

end Thicket.Vault
