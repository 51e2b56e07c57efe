import Mathlib.Data.List.Basic
import Mathlib.Data.UInt
import Thicket.Base.Program

/-! # The TCA8418 keypad scanner

`lib/Keypad/src/Tca8418.{h,cpp}`: decoding of a FIFO byte and `poll`, as a program over the two
register accesses of `Tca8418Bus`. A read answers `none` when `read_reg` returns false, a write
answers what `write_reg` returns. -/

namespace Thicket.Keypad

/-- `TCA_INT_STAT`. -/
def tcaIntStat : UInt8 := 0x02
/-- `TCA_KEY_LCK_EC`: the FIFO count in its low nibble. -/
def tcaKeyLckEc : UInt8 := 0x03
/-- `TCA_KEY_EVENT_A`: the FIFO head. -/
def tcaKeyEventA : UInt8 := 0x04
/-- `TCA_INT_K`: a key event is waiting. -/
def tcaIntK : UInt8 := 1
/-- `TCA_INT_OVR_FLOW`: events have been dropped. -/
def tcaIntOvrFlow : UInt8 := 8
/-- `TCA_ROWS`. -/
def tcaRows : Nat := 8
/-- `TCA_COLS`. -/
def tcaCols : Nat := 10
/-- `TCA_GPI_FIRST`: key numbers from here on are GPI events. -/
def tcaGpiFirst : Nat := 97

/-- `KeyEvent`. -/
structure KeyEvent where
  /-- Matrix row. -/
  row : Nat
  /-- Matrix column. -/
  col : Nat
  /-- Press or release. -/
  pressed : Bool
  deriving DecidableEq, Repr

/-- `Tca8418::decode`: bit 7 is press or release, the low seven bits the key number. -/
def decode (raw : UInt8) : Option KeyEvent :=
  if raw = 0 then none
  else
    let key := (raw &&& 0x7F).toNat
    if key = 0 then none
    else if key ≥ tcaGpiFirst then none
    else if key > tcaRows * tcaCols then none
    else some
      { row := (key - 1) / tcaCols
        col := (key - 1) % tcaCols
        pressed := decide (raw &&& 0x80 ≠ 0) }

/-- The empty marker decodes to nothing. -/
@[simp] theorem decode_zero : decode 0 = none := rfl

/-- A register access. -/
inductive BusReq where
  /-- `read_reg(reg, value)`. -/
  | readReg (reg : UInt8)
  /-- `write_reg(reg, value)`. -/
  | writeReg (reg value : UInt8)
  deriving DecidableEq

/-- What the driver learns from an access: the byte read, or `none` for a failed read; whether a
write succeeded. -/
abbrev BusReq.Resp : BusReq → Type
  | .readReg _ => Option UInt8
  | .writeReg _ _ => Bool

/-- A program over the bus. -/
abbrev BusProg (α : Type) : Type := Prog BusReq BusReq.Resp α

/-- What a call of `poll` leaves behind: the entries written to `out` and the overflow latch. -/
structure PollResult where
  /-- `out[0 .. n)`. -/
  out : List KeyEvent
  /-- `_overflowed`. -/
  overflowed : Bool
  deriving DecidableEq

/-- The end of `poll`: write the status bits back, whatever the write returns. -/
def pollClear (overflowed : Bool) (stat : UInt8) (out : List KeyEvent) : BusProg PollResult :=
  if stat ≠ 0 then .ask (.writeReg tcaIntStat stat) fun _ => .done ⟨out, overflowed⟩
  else .done ⟨out, overflowed⟩

/-- The drain loop of `poll`, `pending` events to go and `out` written so far. -/
def pollDrain (overflowed : Bool) (stat : UInt8) (max : Nat) :
    Nat → List KeyEvent → BusProg PollResult
  | 0, out => pollClear overflowed stat out
  | pending + 1, out =>
      if out.length < max then
        .ask (.readReg tcaKeyEventA) fun
          | none => pollClear overflowed stat out
          | some raw =>
              if raw = 0 then pollClear overflowed stat out
              else
                -- a GPI or out-of-range event still consumed a FIFO slot
                match decode raw with
                | some ev => pollDrain overflowed stat max pending (out ++ [ev])
                | none => pollDrain overflowed stat max pending out
      else pollClear overflowed stat out

/-- The body of `poll` once the status byte is read. -/
def pollStat (overflowed : Bool) (stat : UInt8) (max : Nat) : BusProg PollResult :=
  let overflowed := overflowed || decide (stat &&& tcaIntOvrFlow ≠ 0)
  if stat &&& tcaIntK ≠ 0 then
    .ask (.readReg tcaKeyLckEc) fun
      | none => .done ⟨[], overflowed⟩
      | some ec => pollDrain overflowed stat max (ec &&& 0x0F).toNat []
  else pollClear overflowed stat []

/-- `Tca8418::poll(out, max)` for a non-null `out`; `overflowed` is the latch before the call. -/
def poll (overflowed : Bool) (max : Nat) : BusProg PollResult :=
  if max = 0 then .done ⟨[], overflowed⟩
  else .ask (.readReg tcaIntStat) fun
    | none => .done ⟨[], overflowed⟩
    | some stat => pollStat overflowed stat max

end Thicket.Keypad
