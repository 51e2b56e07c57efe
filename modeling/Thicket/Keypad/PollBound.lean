import Mathlib.Data.List.Basic
import Thicket.Keypad.Tca8418

/-! # One call of `poll` on an arbitrary bus

The bus is anything that answers register accesses: any bytes, any failures, with or without
memory. Against every such bus `poll` is bounded by the four-bit count and the caller's space, and
what it writes out is the FIFO bytes it read, decoded. -/

namespace Thicket.Keypad

open Prog

/-- One register access with its answer. -/
abbrev BusAccess : Type := Access BusReq BusReq.Resp

/-- A bus: the answer to a register access, by everything that was accessed before. -/
abbrev BusDevice : Type := List BusAccess → (r : BusReq) → r.Resp

/-- The access is a read of `KEY_EVENT_A`, answered or failed. -/
def isEventRead : BusAccess → Bool
  | ⟨.readReg reg, _⟩ => reg = tcaKeyEventA
  | ⟨.writeReg _ _, _⟩ => false

/-- The byte an access took from the FIFO. -/
def fifoByte : BusAccess → Option UInt8
  | ⟨.readReg reg, some raw⟩ => if reg = tcaKeyEventA then some raw else none
  | _ => none

/-- The status byte an access read. -/
def statByte : BusAccess → Option UInt8
  | ⟨.readReg reg, some stat⟩ => if reg = tcaIntStat then some stat else none
  | _ => none

/-- The FIFO bytes of a conversation, in the order they were read. -/
def fifoBytes (said : List BusAccess) : List UInt8 := said.filterMap fifoByte

/-- The overflow bit stood in a status byte that was read. -/
def overflowRead (said : List BusAccess) : Bool :=
  (said.filterMap statByte).any fun stat => stat &&& tcaIntOvrFlow ≠ 0

/-- **A decoded event lies in the matrix**, and its place is the key number. -/
theorem decode_bounds {raw : UInt8} {ev : KeyEvent} (h : decode raw = some ev) :
    ev.row < 8 ∧ ev.col < 10 ∧ (raw &&& 0x7F).toNat = ev.row * 10 + ev.col + 1 ∧
      ev.pressed = decide (raw &&& 0x80 ≠ 0) := by
  have hraw : raw ≠ 0 := by
    rintro rfl
    cases h
  rw [decode, if_neg hraw] at h
  dsimp only at h
  split at h
  · cases h
  · next hzero =>
    split at h
    · cases h
    · split at h
      · cases h
      · next hrange =>
        cases h
        simp only [tcaRows, tcaCols] at hrange ⊢
        refine ⟨?_, ?_, ?_, by simp⟩ <;> omega

/-! ## The drain -/

/-- What the drain loop has done by the end of the call, with at most `pending` events to go and
`out` written before it. -/
structure Drained (overflowed : Bool) (max pending : Nat) (out : List KeyEvent)
    (said : List BusAccess) (r : PollResult) : Prop where
  /-- One read an event to go. -/
  reads : said.countP isEventRead ≤ pending
  /-- The reads, and one write to clear the interrupt. -/
  accesses : said.length ≤ pending + 1
  /-- The caller's space. -/
  room : r.out.length ≤ max
  /-- The output is what was there, then the bytes read, decoded. -/
  faithful : r.out = out ++ (fifoBytes said).filterMap decode
  /-- The latch is left alone. -/
  latch : r.overflowed = overflowed
  /-- The status is not read again. -/
  status : said.filterMap statByte = []

/-- Clearing the interrupt ends the call and reads nothing. -/
theorem always_pollClear (overflowed : Bool) (stat : UInt8) {max : Nat} (pending : Nat)
    (out : List KeyEvent) (hout : out.length ≤ max) :
    Always (Drained overflowed max pending out) (pollClear overflowed stat out) := by
  unfold pollClear
  split
  · rw [always_ask]
    intro ok
    exact ⟨by simp [isEventRead], by simp, hout, by simp [fifoBytes, fifoByte], rfl, rfl⟩
  · exact ⟨by simp, by simp, hout, by simp [fifoBytes], rfl, rfl⟩

/-- A read of the FIFO head before the rest of a drain. -/
theorem Drained.cons {overflowed : Bool} {max pending : Nat} {out : List KeyEvent}
    {reply : Option UInt8} {said : List BusAccess} {r : PollResult}
    (h : Drained overflowed max pending (out ++ (reply.bind decode).toList) said r) :
    Drained overflowed max (pending + 1) out (⟨.readReg tcaKeyEventA, reply⟩ :: said) r where
  reads := by
    rw [List.countP_cons_of_pos (by rfl)]
    exact Nat.succ_le_succ h.reads
  accesses := Nat.succ_le_succ h.accesses
  room := h.room
  faithful := by
    rw [h.faithful, List.append_assoc]
    cases reply with
    | none => rfl
    | some raw =>
      rw [fifoBytes, fifoBytes, List.filterMap_cons_some (b := raw) (by rfl)]
      cases hev : decode raw <;> simp [hev]
  latch := h.latch
  status := by
    cases reply with
    | none => exact h.status
    | some raw => exact h.status

/-- **The drain loop**, by induction on the events to go. -/
theorem always_pollDrain (overflowed : Bool) (stat : UInt8) {max : Nat} (pending : Nat)
    (out : List KeyEvent) (hout : out.length ≤ max) :
    Always (Drained overflowed max pending out) (pollDrain overflowed stat max pending out) := by
  induction pending generalizing out with
  | zero => exact always_pollClear overflowed stat 0 out hout
  | succ pending ih =>
    unfold pollDrain
    split
    · next hroom =>
      rw [always_ask]
      intro reply
      -- what this read contributes, then the rest of the loop
      suffices h :
          Always (Drained overflowed max pending (out ++ (reply.bind decode).toList)) _ from
        h.mono fun said r hr => hr.cons
      cases reply with
      | none => simpa using always_pollClear overflowed stat pending out hout
      | some raw =>
        dsimp only
        split
        · next hzero =>
          subst hzero
          simpa using always_pollClear overflowed stat pending out hout
        · cases hev : decode raw with
          | none => simpa [hev] using ih out hout
          | some ev =>
            have hfits : (out ++ [ev]).length ≤ max := by
              rw [List.length_append]
              exact hroom
            simpa [hev] using ih _ hfits
    · exact always_pollClear overflowed stat (pending + 1) out hout

/-! ## The whole call -/

/-- **One call of `poll` is bounded and faithful.** -/
structure BoundedAndFaithful (overflowed : Bool) (max : Nat) (said : List BusAccess)
    (r : PollResult) : Prop where
  /-- At most fifteen reads of `KEY_EVENT_A`, answered or failed. -/
  reads : said.countP isEventRead ≤ 15
  /-- The call ends after at most eighteen accesses. -/
  accesses : said.length ≤ 18
  /-- At most `max` entries are written. -/
  room : r.out.length ≤ max
  /-- The output is the bytes read from the FIFO, decoded in order. -/
  faithful : r.out = (fifoBytes said).filterMap decode
  /-- A decoded byte names a place of the matrix by its key number. -/
  matrix : ∀ raw ∈ fifoBytes said, ∀ ev, decode raw = some ev →
    ev.row < 8 ∧ ev.col < 10 ∧ (raw &&& 0x7F).toNat = ev.row * 10 + ev.col + 1 ∧
      ev.pressed = decide (raw &&& 0x80 ≠ 0)
  /-- The latch is set exactly when it was, or the overflow bit was read. -/
  latch : r.overflowed = (overflowed || overflowRead said)

/-- A call that stops has drained nothing. -/
theorem drained_nil (overflowed : Bool) (max : Nat) :
    Drained overflowed max 0 [] [] ⟨[], overflowed⟩ :=
  ⟨Nat.zero_le 0, Nat.zero_le 1, Nat.zero_le max, rfl, rfl, rfl⟩

/-- A drain of at most fifteen events after the reads of the status and the count. -/
theorem Drained.bounded {overflowed : Bool} {max pending : Nat} (before : List BusAccess)
    {said : List BusAccess} {r : PollResult}
    (h : Drained (overflowed || overflowRead before) max pending [] said r)
    (hpending : pending ≤ 15) (hreads : before.countP isEventRead = 0)
    (hbytes : fifoBytes before = []) (hlength : before.length ≤ 2) :
    BoundedAndFaithful overflowed max (before ++ said) r where
  reads := by
    have := h.reads
    rw [List.countP_append]
    omega
  accesses := by
    have := h.accesses
    rw [List.length_append]
    omega
  room := h.room
  faithful := by
    rw [h.faithful, fifoBytes, fifoBytes, List.filterMap_append]
    rw [fifoBytes] at hbytes
    rw [hbytes, List.nil_append, List.nil_append]
  matrix := fun raw _ ev hev => decode_bounds hev
  latch := by
    rw [h.latch, overflowRead, overflowRead, List.filterMap_append, h.status, List.append_nil]

/-- A call that ends before the drain, having read a status and a count at most. -/
theorem boundedAndFaithful_of_stop (overflowed : Bool) (max : Nat) (before : List BusAccess)
    (hreads : before.countP isEventRead = 0) (hbytes : fifoBytes before = [])
    (hlength : before.length ≤ 2) :
    BoundedAndFaithful overflowed max before ⟨[], overflowed || overflowRead before⟩ := by
  have h := (drained_nil (overflowed || overflowRead before) max).bounded before
    (Nat.zero_le 15) hreads hbytes hlength
  rwa [List.append_nil] at h

/-- The low nibble of the count register is at most fifteen. -/
theorem count_le (ec : UInt8) : (ec &&& 0x0F).toNat ≤ 15 := by
  rw [UInt8.toNat_and]
  exact Nat.and_le_right

/-- A status byte read shows its overflow bit. -/
@[simp] theorem overflowRead_stat (stat : UInt8) (said : List BusAccess) :
    overflowRead (⟨.readReg tcaIntStat, some stat⟩ :: said)
      = (decide (stat &&& tcaIntOvrFlow ≠ 0) || overflowRead said) := by
  rw [overflowRead, List.filterMap_cons_some (b := stat) (by rfl), List.any_cons, overflowRead]

/-- **Every call of `poll`**, whatever the bus answers. -/
theorem always_poll (overflowed : Bool) (max : Nat) :
    Always (BoundedAndFaithful overflowed max) (poll overflowed max) := by
  unfold poll
  split
  · simpa [overflowRead] using
      boundedAndFaithful_of_stop overflowed max [] rfl rfl (by simp)
  · rw [always_ask]
    intro reply
    cases reply with
    | none =>
      -- without a status there is nothing to do
      have hstop := boundedAndFaithful_of_stop overflowed max
        [⟨.readReg tcaIntStat, none⟩] rfl rfl (by simp)
      simpa [overflowRead, statByte] using hstop
    | some stat =>
      dsimp only [pollStat]
      split
      · rw [always_ask]
        intro reply
        cases reply with
        | none =>
          -- the count did not come back
          have hstop := boundedAndFaithful_of_stop overflowed max
            [⟨.readReg tcaIntStat, some stat⟩, ⟨.readReg tcaKeyLckEc, none⟩]
            rfl rfl (by simp)
          simpa [overflowRead, statByte] using hstop
        | some ec =>
          have hdrain := always_pollDrain
            (overflowed || decide (stat &&& tcaIntOvrFlow ≠ 0)) stat
            (ec &&& 0x0F).toNat [] (Nat.zero_le max)
          refine hdrain.mono fun said r h => ?_
          have hother : tcaKeyLckEc ≠ tcaIntStat := by decide
          exact Drained.bounded
            [⟨.readReg tcaIntStat, some stat⟩, ⟨.readReg tcaKeyLckEc, some ec⟩]
            (by simpa [overflowRead, statByte, hother] using h) (count_le ec) rfl rfl (by simp)
      · -- no key event is waiting: the status is cleared and that is all
        have hclear := always_pollClear
          (overflowed || decide (stat &&& tcaIntOvrFlow ≠ 0)) stat 0 [] (Nat.zero_le max)
        refine hclear.mono fun said r h => ?_
        exact Drained.bounded [⟨.readReg tcaIntStat, some stat⟩]
          (by simpa [overflowRead, statByte] using h) (Nat.zero_le 15) rfl rfl (by simp)

/-- **`poll` is bounded and faithful on any bus.** -/
theorem poll_bounded_and_faithful (bus : BusDevice) (said : List BusAccess) (overflowed : Bool)
    (max : Nat) :
    BoundedAndFaithful overflowed max (converse bus said (poll overflowed max)).1
      (converse bus said (poll overflowed max)).2 :=
  (always_poll overflowed max).converse bus said

end Thicket.Keypad
