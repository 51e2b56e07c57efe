import Mathlib.Data.UInt

/-! # One device's auto-reply

`src/main.cpp`: `ReplyRequest`, the part of the delivery callback that arms it and the part of
`thicket_work` that sends it. What a reply says (a counter, the uptime, the link quality) is printed
and stored by whoever receives it and decides nothing, so messages have no body here. -/

namespace Thicket.AutoReply

/-- A destination hash as it comes off the wire. -/
abbrev Hash : Type := List UInt8

/-- `REPLY_DELAY_MS`. -/
def replyDelayMs : UInt32 := 1500

/-- `ReplyRequest`: one pending reply, not a queue. -/
structure ReplyRequest where
  /-- A reply is pending. -/
  armed : Bool := false
  /-- The time it is due, on the wrapping millisecond clock. -/
  dueMs : UInt32 := 0
  /-- Whom it answers. -/
  toHash : Hash := []
  deriving DecidableEq

namespace ReplyRequest

/-- **The delivery callback**, for a message from `source` on the device with hash `own`: a
malformed source and the device's own are skipped, any other arms the reply, the newer one winning.
-/
def onDelivery (r : ReplyRequest) (own : Hash) (now : UInt32) (source : Hash) : ReplyRequest :=
  if source.length ≠ 16 then r
  else if source = own then r
  else { armed := true, dueMs := now + replyDelayMs, toHash := source }

/-- `g_reply.armed && (int32_t)(millis() - g_reply.due_ms) >= 0`. -/
def due (r : ReplyRequest) (now : UInt32) : Bool := r.armed && decide ((now - r.dueMs).toInt32 ≥ 0)

/-- `send_lxmf`: the hash a message is transmitted to. `accepted` says whether the router takes it
(there is a router and memory, and packing does not throw). -/
def sendLxmf (toHash : Hash) (accepted : Bool) : Option Hash :=
  if toHash.length ≠ 16 then none else if accepted then some toHash else none

/-- **The auto-reply in `thicket_work`**: disarm, then send. -/
def work (r : ReplyRequest) (now : UInt32) (accepted : Bool) : ReplyRequest × Option Hash :=
  if r.due now then ({ r with armed := false }, sendLxmf r.toHash accepted) else (r, none)

/-- A delivery pends at most one reply. -/
theorem armed_onDelivery_le (r : ReplyRequest) (own : Hash) (now : UInt32) (source : Hash) :
    (r.onDelivery own now source).armed.toNat ≤ r.armed.toNat + 1 :=
  (Bool.toNat_le _).trans (Nat.le_add_left 1 _)

/-- The device's own message pends nothing. -/
theorem onDelivery_own (r : ReplyRequest) (own : Hash) (now : UInt32) :
    r.onDelivery own now own = r := by
  unfold onDelivery
  split <;> simp

/-- A well-formed source that is not the device itself pends a reply to it. -/
theorem onDelivery_other (r : ReplyRequest) {own source : Hash} (now : UInt32)
    (hlen : source.length = 16) (hne : source ≠ own) :
    r.onDelivery own now source
      = { armed := true, dueMs := now + replyDelayMs, toHash := source } := by
  rw [onDelivery, if_neg (not_not.mpr hlen), if_neg hne]

/-- **One reply for one request**: what is transmitted was pending and no longer is. -/
theorem armed_work (r : ReplyRequest) (now : UInt32) (accepted : Bool) :
    (r.work now accepted).1.armed.toNat + (r.work now accepted).2.toList.length
      ≤ r.armed.toNat := by
  unfold work
  split
  next hdue =>
    have harmed : r.armed = true := (Bool.and_eq_true_iff.mp hdue).1
    have hlen : (sendLxmf r.toHash accepted).toList.length ≤ 1 := by
      cases sendLxmf r.toHash accepted <;> simp
    simp only [harmed, Bool.toNat_false, Bool.toNat_true]
    omega
  next => simp

/-- A pending reply is sent at the moment it is due. -/
theorem work_due {r : ReplyRequest} (harmed : r.armed = true) (hlen : r.toHash.length = 16) :
    r.work r.dueMs true = ({ r with armed := false }, some r.toHash) := by
  have hdue : r.due r.dueMs = true := by
    rw [due, harmed, UInt32.sub_self]
    rfl
  rw [work, if_pos hdue, sendLxmf, if_neg (not_not.mpr hlen), if_pos rfl]

end ReplyRequest

end Thicket.AutoReply
