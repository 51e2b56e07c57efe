import Mathlib.Data.UInt
import Thicket.Base.Reassembly

/-! # The LoRa interface

`lib/LoRaInterface/src/LoRaInterface.{h,cpp}`: packets go out in one frame or, beyond 254 bytes, in
two under a three-bit sequence number; `loop` reads one frame and puts the halves together. The
radio and its figures are outside: which frames are read, and how well, is part of the input. -/

namespace Thicket.Radio

/-- `RNS::Bytes`. -/
abbrev Bytes : Type := List UInt8

/-- `HEADER_SPLIT`. -/
def headerSplit : UInt8 := 0x08
/-- `HEADER_SEQ_MASK`. -/
def headerSeqMask : UInt8 := 0x07
/-- `SEQ_UNSET`: no split in progress. -/
def seqUnset : UInt8 := 0xFF
/-- `LORA_MAX_PAYLOAD`. -/
def loraMaxPayload : Nat := 254
/-- `_HW_MTU`. -/
def hwMtu : Nat := 508

/-- A packet the interface is given: the transport keeps to `_HW_MTU`, and `send_outgoing` does
not check it. -/
abbrev Packet : Type := { data : Bytes // data.length ≤ hwMtu }

/-- `isSplitPacket`. -/
def isSplitPacket (h : UInt8) : Bool := h &&& headerSplit != 0
/-- `packetSequence`. -/
def packetSequence (h : UInt8) : UInt8 := h &&& headerSeqMask

/-- What `loop` learns of a received frame. -/
structure Reception (Q : Type) where
  /-- `rxBuf[0 .. len)`. -/
  frame : Bytes
  /-- `readData` returns `RADIOLIB_ERR_NONE`. -/
  ok : Bool
  /-- `getRSSI()`. -/
  rssi : Q
  /-- `getSNR()`. -/
  snr : Q

/-- The interface. -/
structure LoRaInterface (Q : Type) [Zero Q] where
  /-- `_online`. -/
  online : Bool := false
  /-- `buffer`. -/
  buffer : Bytes := []
  /-- `_rx_seq`. -/
  rxSeq : UInt8 := seqUnset
  /-- `_tx_seq_ctr`. -/
  txSeqCtr : UInt8 := 0
  /-- `_last_rssi`. -/
  lastRssi : Q := 0
  /-- `_last_snr`. -/
  lastSnr : Q := 0
  /-- `_signal_valid`. -/
  signalValid : Bool := false

variable {Q : Type}

/-- A frame that is looked at: read without an error, and more than its header. -/
def Reception.readable (r : Reception Q) : Bool := r.ok && decide (1 < r.frame.length)

variable [Zero Q]

namespace LoRaInterface

/-- The received frame in `loop`, and what is passed to `on_incoming`. -/
def receive (s : LoRaInterface Q) (r : Reception Q) : LoRaInterface Q × Option Bytes :=
  if r.readable then
    let s := { s with lastRssi := r.rssi, lastSnr := r.snr, signalValid := true }
    let hdr := r.frame.headD 0
    let seq := packetSequence hdr
    let payload := r.frame.tail
    if isSplitPacket hdr then
      if s.rxSeq = seqUnset ∨ s.rxSeq ≠ seq then
        -- first part of a split, or a restart after a lost one
        ({ s with rxSeq := seq, buffer := payload }, none)
      else
        ({ s with buffer := s.buffer ++ payload, rxSeq := seqUnset }, some (s.buffer ++ payload))
    else
      ({ s with rxSeq := seqUnset, buffer := payload }, some payload)
  else (s, none)

/-- **`loop`**: `irq` is what `checkIrq(RX_DONE)` finds, a frame or nothing. -/
def loop (s : LoRaInterface Q) (irq : Option (Reception Q)) : LoRaInterface Q × Option Bytes :=
  match irq with
  | some r => if s.online then s.receive r else (s, none)
  | none => (s, none)

/-- What a call of `send_outgoing` does. -/
structure Sending (Q : Type) [Zero Q] where
  /-- The interface afterwards. -/
  after : LoRaInterface Q
  /-- The frames handed to `transmit`, in order. -/
  frames : List Bytes
  /-- The return value. -/
  success : Bool

/-- **`send_outgoing`**: `random` is `randomnum(256)`, `ok₁` and `ok₂` say whether `transmit`
returns without an error; the second frame of a split goes out whatever became of the first. -/
def sendOutgoing (s : LoRaInterface Q) (data : Packet) (random : UInt8) (ok₁ ok₂ : Bool) :
    Sending Q :=
  if s.online then
    let randNibble := random &&& 0xF0
    if data.1.length ≤ loraMaxPayload then
      { after := s, frames := [randNibble :: data.1], success := ok₁ }
    else
      let seq := s.txSeqCtr &&& headerSeqMask
      let splitHdr := randNibble ||| headerSplit ||| seq
      { after := { s with txSeqCtr := s.txSeqCtr + 1 }
        frames := [splitHdr :: data.1.take loraMaxPayload, splitHdr :: data.1.drop loraMaxPayload]
        success := ok₁ && ok₂ }
  else { after := s, frames := [], success := true }

/-- A packet in one frame. -/
theorem sendOutgoing_of_le {s : LoRaInterface Q} (hs : s.online = true) {data : Packet}
    (h : data.1.length ≤ loraMaxPayload) (random : UInt8) (ok₁ ok₂ : Bool) :
    s.sendOutgoing data random ok₁ ok₂
      = { after := s, frames := [(random &&& 0xF0) :: data.1], success := ok₁ } := by
  rw [sendOutgoing, if_pos hs]
  exact if_pos h

/-- A packet in two frames. -/
theorem sendOutgoing_of_lt {s : LoRaInterface Q} (hs : s.online = true) {data : Packet}
    (h : loraMaxPayload < data.1.length) (random : UInt8) (ok₁ ok₂ : Bool) :
    s.sendOutgoing data random ok₁ ok₂
      = { after := { s with txSeqCtr := s.txSeqCtr + 1 }
          frames := [((random &&& 0xF0) ||| headerSplit ||| (s.txSeqCtr &&& headerSeqMask))
              :: data.1.take loraMaxPayload,
            ((random &&& 0xF0) ||| headerSplit ||| (s.txSeqCtr &&& headerSeqMask))
              :: data.1.drop loraMaxPayload]
          success := ok₁ && ok₂ } := by
  rw [sendOutgoing, if_pos hs]
  exact if_neg (Nat.not_le.mpr h)

end LoRaInterface

/-! ## Headers -/

/-- The mask of an or. -/
theorem or_and_right (a b c : UInt8) : (a ||| b) &&& c = (a &&& c) ||| (b &&& c) := by
  rw [← UInt8.toBitVec_inj]
  simp [BitVec.and_or_distrib_right]

/-- A header of a random nibble is not that of a split. -/
theorem isSplitPacket_nibble (random : UInt8) : isSplitPacket (random &&& 0xF0) = false := by
  have hmask : (0xF0 : UInt8) &&& headerSplit = 0 := by decide
  rw [isSplitPacket, UInt8.and_assoc, hmask]
  simp

/-- A split header says so, and carries the sequence number. -/
theorem splitHdr (random ctr : UInt8) :
    isSplitPacket ((random &&& 0xF0) ||| headerSplit ||| (ctr &&& headerSeqMask)) = true ∧
      packetSequence ((random &&& 0xF0) ||| headerSplit ||| (ctr &&& headerSeqMask))
        = ctr &&& headerSeqMask := by
  have h₁ : (0xF0 : UInt8) &&& headerSplit = 0 := by decide
  have h₂ : headerSeqMask &&& headerSplit = 0 := by decide
  have h₃ : (0xF0 : UInt8) &&& headerSeqMask = 0 := by decide
  have h₄ : headerSplit &&& headerSeqMask = 0 := by decide
  constructor
  · rw [isSplitPacket, or_and_right, or_and_right, UInt8.and_assoc, UInt8.and_assoc, h₁, h₂]
    simp [headerSplit]
  · rw [packetSequence, or_and_right, or_and_right, UInt8.and_assoc, UInt8.and_assoc, h₃, h₄]
    simp

/-- A sequence number is not the mark for none. -/
theorem packetSequence_ne_unset (h : UInt8) : packetSequence h ≠ seqUnset := by
  intro he
  have hmask : packetSequence h &&& 0xF8 = seqUnset &&& 0xF8 := by rw [he]
  have h₁ : headerSeqMask &&& 0xF8 = 0 := by decide
  have h₂ : seqUnset &&& 0xF8 = 0xF8 := by decide
  rw [packetSequence, UInt8.and_assoc, h₁, h₂] at hmask
  simp at hmask

/-! ## The receiver puts halves together -/

open Reassembly

/-- What a frame is to the receiver. -/
def partOf (frame : Bytes) : Part UInt8 Bytes :=
  if isSplitPacket (frame.headD 0) then .half (packetSequence (frame.headD 0)) frame.tail
  else .whole frame.tail

/-- The interface holds the half that waits. -/
def LoRaInterface.Holds (s : LoRaInterface Q) : Pending UInt8 Bytes → Prop
  | none => s.rxSeq = seqUnset
  | some (seq, b) => s.rxSeq = seq ∧ s.buffer = b ∧ seq ≠ seqUnset

/-- **One frame** is one step of the receiver of messages in two halves. -/
theorem LoRaInterface.Holds.receive {s : LoRaInterface Q} {p : Pending UInt8 Bytes}
    (h : s.Holds p) {r : Reception Q} (hr : r.readable = true) :
    (s.receive r).1.Holds (step p (partOf r.frame)) ∧
      (s.receive r).2.toList = (out p (partOf r.frame)).map List.flatten := by
  rw [LoRaInterface.receive, if_pos hr, partOf]
  dsimp only
  generalize r.frame.headD 0 = hdr
  cases hsplit : isSplitPacket hdr with
  | false => simp [step, out, Holds]
  | true =>
    have hne := packetSequence_ne_unset hdr
    cases p with
    | none =>
      have hrx : s.rxSeq = seqUnset := h
      simp [step, out, Holds, hrx, hne]
    | some q =>
      obtain ⟨seq, b⟩ := q
      obtain ⟨rfl, rfl, hseq⟩ := h
      by_cases hmeets : s.rxSeq = packetSequence hdr
      · simp [step, out, Holds, hmeets, hne, Pending.payloads]
      · simp [step, out, Holds, hmeets, hne, hseq]

end Thicket.Radio
