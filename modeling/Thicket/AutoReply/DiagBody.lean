import Mathlib.Data.UInt
import Mathlib.Data.List.TakeWhile

/-! # The diagnostic body

`build_diag_body` in `src/main.cpp`: one line with the send counter, the uptime, the signal figures
and the first bytes of the identity hash. Every field is bounded (the clamped ones whatever the
radio reports), and together they stay under the content budget of one packet. -/

namespace Thicket.AutoReply

/-- `REPLY_CONTENT_BUDGET`. -/
def replyContentBudget : Nat := 48
/-- `BODY_BUF`. -/
def bodyBuf : Nat := 72
/-- `sizeof(rssi_buf)`. -/
def rssiBufSize : Nat := 8
/-- `sizeof(snr_buf)`. -/
def snrBufSize : Nat := 10

/-! ## C strings -/

/-- The terminator. -/
def nul : Char := Char.ofNat 0

/-- What a `const char*` points at ends at its terminator. -/
def cStr (s : List Char) : List Char := s.takeWhile (· ≠ nul)

/-- `strlen`. -/
def strlen (s : List Char) : Nat := (cStr s).length

/-- **`snprintf`** of a text into a buffer: what the buffer holds, and the length of the text. -/
def snprintf (size : Nat) (text : List Char) : List Char × Nat :=
  (text.take (size - 1), text.length)

/-- `%lu`. -/
def decimal (n : Nat) : List Char := Nat.toDigits 10 n

/-- `%ld`. -/
def signedDecimal : Int → List Char
  | .ofNat n => decimal n
  | .negSucc n => '-' :: decimal (n + 1)

/-- A text without a terminator is its own C string. -/
theorem cStr_of_notMem {s : List Char} (h : nul ∉ s) : cStr s = s := by
  refine List.takeWhile_eq_self_iff.mpr fun c hc => ?_
  exact decide_eq_true fun heq => h (heq ▸ hc)

/-- No C string holds the terminator. -/
theorem nul_notMem_cStr (s : List Char) : nul ∉ cStr s := by
  intro h
  have hne := List.mem_takeWhile_imp (p := fun c => decide (c ≠ nul)) h
  exact of_decide_eq_true hne rfl

/-- Digits are not the terminator. -/
theorem nul_notMem_decimal (n : Nat) : nul ∉ decimal n := fun h =>
  absurd (Nat.isDigit_of_mem_toDigits (by decide) (by decide) h) (by decide)

/-- A number below a power of ten has at most that many digits. -/
theorem length_decimal_le {n k : Nat} (hk : 0 < k) (h : n < 10 ^ k) : (decimal n).length ≤ k :=
  (Nat.length_toDigits_le_iff (by decide) hk).mpr h

/-- **A text that fits is printed whole.** -/
theorem snprintf_of_lt {size : Nat} {text : List Char} (h : text.length < size) :
    snprintf size text = (text, text.length) := by
  rw [snprintf, List.take_of_length_le (by omega)]

/-! ## The body -/

/-- `if (v < lo) v = lo; else if (v > hi) v = hi`. -/
def clamp (lo hi v : Int) : Int := if v < lo then lo else if hi < v then hi else v

/-- What is printed into `rssi_buf`, for the rounded reading. -/
def rssiText (r : Int) : List Char := signedDecimal (clamp (-200) 20 r)

/-- What is printed into `snr_buf`, for the rounded tenths. -/
def snrText (tenths : Int) : List Char :=
  let t := clamp (-300) 300 tenths
  let mag := t.natAbs
  (if t < 0 then '-' else '+') :: (decimal (mag / 10) ++ '.' :: decimal (mag % 10))

/-- `rssi_buf`. -/
def rssiBuf (signalValid : Bool) (r : Int) : List Char :=
  if signalValid then (snprintf rssiBufSize (rssiText r)).1 else ['?']

/-- `snr_buf`. -/
def snrBuf (signalValid : Bool) (tenths : Int) : List Char :=
  if signalValid then (snprintf snrBufSize (snrText tenths)).1 else ['?']

/-- The line: `#%lu up%lus r%s s%s id%s`. `hashHex` is what `toHex` returns. -/
def diagText (hashHex : List Char) (sendCounter millis : UInt32) (signalValid : Bool)
    (r tenths : Int) : List Char :=
  ['#'] ++ decimal sendCounter.toNat ++ [' ', 'u', 'p'] ++ decimal (millis.toNat / 1000)
    ++ ['s', ' ', 'r'] ++ cStr (rssiBuf signalValid r) ++ [' ', 's']
    ++ cStr (snrBuf signalValid tenths) ++ [' ', 'i', 'd'] ++ cStr (hashHex.take 8)

/-- **`build_diag_body`**: what `out` holds, and the length that is returned. -/
def buildDiagBody (hashHex : List Char) (sendCounter millis : UInt32) (outSize : Nat)
    (signalValid : Bool) (r tenths : Int) : List Char × Nat :=
  snprintf outSize (diagText hashHex sendCounter millis signalValid r tenths)

/-- A clamped value is between its bounds. -/
theorem clamp_mem {lo hi : Int} (h : lo ≤ hi) (v : Int) :
    lo ≤ clamp lo hi v ∧ clamp lo hi v ≤ hi := by
  unfold clamp
  split_ifs <;> omega

/-- **The signal strength has at most four characters.** -/
theorem length_rssiText_le (r : Int) : (rssiText r).length ≤ 4 := by
  obtain ⟨hlo, hhi⟩ := clamp_mem (show (-200 : Int) ≤ 20 by decide) r
  rw [rssiText]
  generalize clamp (-200) 20 r = v at hlo hhi
  cases v with
  | ofNat n =>
    -- at most 20
    simp only [Int.ofNat_eq_natCast] at hhi
    exact length_decimal_le (by decide) (by omega)
  | negSucc n =>
    -- at least -200: three digits behind the sign
    have hdigits : (decimal (n + 1)).length ≤ 3 := length_decimal_le (by decide) (by omega)
    rw [signedDecimal, List.length_cons]
    omega

/-- **The signal-to-noise ratio has at most five.** -/
theorem length_snrText_le (tenths : Int) : (snrText tenths).length ≤ 5 := by
  obtain ⟨hlo, hhi⟩ := clamp_mem (show (-300 : Int) ≤ 300 by decide) tenths
  have hwhole : (decimal ((clamp (-300) 300 tenths).natAbs / 10)).length ≤ 2 :=
    length_decimal_le (by decide) (by omega)
  have hrest : (decimal ((clamp (-300) 300 tenths).natAbs % 10)).length ≤ 1 :=
    length_decimal_le (by decide) (by omega)
  rw [snrText]
  rw [List.length_cons, List.length_append, List.length_cons]
  omega

/-- What `rssi_buf` holds is short. -/
theorem length_rssiBuf_le (signalValid : Bool) (r : Int) :
    (cStr (rssiBuf signalValid r)).length ≤ 4 := by
  refine (List.takeWhile_prefix _).length_le.trans ?_
  cases signalValid with
  | false => exact show 1 ≤ 4 by decide
  | true => exact (List.length_take_le' _ _).trans (length_rssiText_le r)

/-- What `snr_buf` holds is short. -/
theorem length_snrBuf_le (signalValid : Bool) (tenths : Int) :
    (cStr (snrBuf signalValid tenths)).length ≤ 5 := by
  refine (List.takeWhile_prefix _).length_le.trans ?_
  cases signalValid with
  | false => exact show 1 ≤ 5 by decide
  | true => exact (List.length_take_le' _ _).trans (length_snrText_le tenths)

variable (hashHex : List Char) (sendCounter millis : UInt32) (signalValid : Bool) (r tenths : Int)

/-- **The line fits the budget** at all of its extremes. -/
theorem length_diagText_le :
    (diagText hashHex sendCounter millis signalValid r tenths).length ≤ 46 := by
  -- 32 bits have ten digits, and of the milliseconds three are divided away
  have hcounter : (decimal sendCounter.toNat).length ≤ 10 :=
    length_decimal_le (by decide) (by have := sendCounter.toNat_lt; omega)
  have huptime : (decimal (millis.toNat / 1000)).length ≤ 7 :=
    length_decimal_le (by decide) (by have := millis.toNat_lt; omega)
  have hrssi := length_rssiBuf_le signalValid r
  have hsnr := length_snrBuf_le signalValid tenths
  have hid : (cStr (hashHex.take 8)).length ≤ 8 :=
    (List.takeWhile_prefix _).length_le.trans (List.length_take_le 8 hashHex)
  simp only [diagText, List.length_append, List.length_cons, List.length_nil]
  omega

/-- No field holds the terminator. -/
theorem nul_notMem_diagText :
    nul ∉ diagText hashHex sendCounter millis signalValid r tenths := by
  have hcounter := nul_notMem_decimal sendCounter.toNat
  have huptime := nul_notMem_decimal (millis.toNat / 1000)
  have hrssi := nul_notMem_cStr (rssiBuf signalValid r)
  have hsnr := nul_notMem_cStr (snrBuf signalValid tenths)
  have hid := nul_notMem_cStr (hashHex.take 8)
  have hchars : nul ∉ ['#'] ∧ nul ∉ [' ', 'u', 'p'] ∧ nul ∉ ['s', ' ', 'r'] ∧ nul ∉ [' ', 's'] ∧
      nul ∉ [' ', 'i', 'd'] := by decide
  obtain ⟨h1, h2, h3, h4, h5⟩ := hchars
  simp only [diagText, List.mem_append, hcounter, huptime, hrssi, hsnr, hid, h1, h2, h3, h4, h5,
    or_self, not_false_eq_true]

/-- **The body fits one packet**, and nothing on the way to it is cut. -/
structure FitsOnePacket : Prop where
  /-- The string is within the budget. -/
  budget : strlen (buildDiagBody hashHex sendCounter millis bodyBuf signalValid r tenths).1
    ≤ replyContentBudget
  /-- The returned length is the string's. -/
  returned : (buildDiagBody hashHex sendCounter millis bodyBuf signalValid r tenths).2
    = strlen (buildDiagBody hashHex sendCounter millis bodyBuf signalValid r tenths).1
  /-- `rssi_buf` takes all that is printed into it. -/
  rssi_whole : snprintf rssiBufSize (rssiText r) = (rssiText r, (rssiText r).length)
  /-- `snr_buf` does. -/
  snr_whole : snprintf snrBufSize (snrText tenths) = (snrText tenths, (snrText tenths).length)
  /-- `out` does. -/
  out_whole : (buildDiagBody hashHex sendCounter millis bodyBuf signalValid r tenths).1
    = diagText hashHex sendCounter millis signalValid r tenths

/-- **The diagnostic body always fits one packet.** -/
theorem diag_body_fits : FitsOnePacket hashHex sendCounter millis signalValid r tenths := by
  have hlen := length_diagText_le hashHex sendCounter millis signalValid r tenths
  have hwhole : buildDiagBody hashHex sendCounter millis bodyBuf signalValid r tenths
      = (diagText hashHex sendCounter millis signalValid r tenths,
        (diagText hashHex sendCounter millis signalValid r tenths).length) :=
    snprintf_of_lt (hlen.trans_lt (by decide))
  have hstr : strlen (diagText hashHex sendCounter millis signalValid r tenths)
      = (diagText hashHex sendCounter millis signalValid r tenths).length := by
    have hnul := nul_notMem_diagText hashHex sendCounter millis signalValid r tenths
    rw [strlen, cStr_of_notMem hnul]
  refine ⟨?_, ?_, ?_, ?_, ?_⟩
  · rw [hwhole, hstr]
    exact hlen.trans (by decide)
  · rw [hwhole, hstr]
  · exact snprintf_of_lt ((length_rssiText_le r).trans_lt (by decide))
  · exact snprintf_of_lt ((length_snrText_le tenths).trans_lt (by decide))
  · rw [hwhole]

end Thicket.AutoReply
