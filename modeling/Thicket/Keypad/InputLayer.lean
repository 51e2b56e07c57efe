import Mathlib.Data.List.Basic
import Mathlib.Data.List.Nodup
import Mathlib.Data.UInt
import Thicket.Base.Runs

/-! # The keyboard's logic layer

`lib/Keypad/src/InputLayer.{h,cpp}`: key-down and key-up by key code in, characters and actions
out. The live prefix `_down[0 .. _down_count)` of the tracking array is the list `down`, so
`_down_count` is its length; the two facts the C++ relies on about it (it never outgrows the
array, it holds no key twice) are fields, so a layer that breaks them cannot be built. -/

namespace Thicket.Keypad

/-- `KEY_NONE`: no key. -/
def keyNone : UInt8 := 0
/-- `KEY_SHIFT`, the first of the three one-shot modifiers. -/
def keyShift : UInt8 := 1
/-- `KEY_ALT`. -/
def keyAlt : UInt8 := 2
/-- `KEY_SYM`. -/
def keySym : UInt8 := 3

/-- `MOD_NONE`: nothing armed. -/
def modNone : UInt8 := 0
/-- `MOD_SHIFT`. -/
def modShift : UInt8 := 1
/-- `MOD_ALT`. -/
def modAlt : UInt8 := 2
/-- `MOD_SYM`. -/
def modSym : UInt8 := 4

/-- `Event::Type`. -/
inductive EventType where
  /-- Nothing to report. -/
  | none
  /-- A character was produced. -/
  | char
  /-- A non-character key. -/
  | action
  /-- A combination was refused. -/
  | refused
  deriving DecidableEq, Repr

/-- `Event`, with the defaults of the C++ members. -/
structure Event where
  /-- What happened. -/
  type : EventType := .none
  /-- The character, when `type` is `char`. -/
  ch : UInt8 := 0
  /-- The key that caused it. -/
  code : UInt8 := 0
  /-- Modifiers applied, for `char` and `action`. -/
  mods : UInt8 := 0
  deriving DecidableEq, Repr

/-- `KeymapFn` with its context bound: a key code and the applied modifiers to a character, `0`
for none. The C++ pointer may be null. -/
abbrev KeymapFn : Type := Option (UInt8 → UInt8 → UInt8)

/-- `InputLayer::GHOST_THRESHOLD`. -/
def ghostThreshold : Nat := 3
/-- `InputLayer::MAX_TRACKED`. -/
def maxTracked : Nat := 8

/-- The state of an `InputLayer`; the defaults are the constructor's. -/
structure InputLayer where
  /-- `_pending`: modifiers armed and waiting for an ordinary key. -/
  pending : UInt8 := modNone
  /-- `_down[0 .. _down_count)`: the keys tracked as held, oldest first. -/
  down : List UInt8 := []
  /-- `_refused`: key-downs refused by the ghost guard. -/
  refused : UInt32 := 0
  /-- The array bound. -/
  down_le : down.length ≤ maxTracked := by exact Nat.zero_le maxTracked
  /-- No key is tracked twice. -/
  down_nodup : down.Nodup := by exact List.nodup_nil
  deriving DecidableEq

namespace InputLayer

/-- `mod_bit`: the bit of a modifier key, `MOD_NONE` for any other. -/
def modBit (code : UInt8) : UInt8 :=
  if code = keyShift then modShift
  else if code = keyAlt then modAlt
  else if code = keySym then modSym
  else modNone

/-- `ghost_risk`: enough keys are tracked that the matrix could be lying. -/
def ghostRisk (s : InputLayer) : Bool := decide (ghostThreshold ≤ s.down.length)

/-- `track_down`: whether this is a fresh press, and the layer with the key recorded. A ninth key
is counted by leaving `_down_count` at `MAX_TRACKED`, where it already is; it is not recorded. -/
def trackDown (s : InputLayer) (code : UInt8) : Bool × InputLayer :=
  if hmem : code ∈ s.down then (false, s)
  else if hlt : s.down.length < maxTracked then
    (true, { s with
      down := s.down ++ [code]
      down_le := by simpa using Nat.succ_le_of_lt hlt
      down_nodup := by
        have hs := s.down_nodup
        simp only [List.nodup_append, hs, List.nodup_singleton, true_and]
        rintro a ha b hb rfl
        exact hmem (by simpa using List.mem_singleton.mp hb ▸ ha) })
  else (true, s)

/-- `track_up`: drop the first entry equal to the code and shift the rest down. -/
def trackUp (s : InputLayer) (code : UInt8) : Bool × InputLayer :=
  if code ∈ s.down then
    (true, { s with
      down := s.down.erase code
      down_le := List.length_erase_le.trans s.down_le
      down_nodup := s.down_nodup.erase code })
  else (false, s)

/-- `key_down`: report what a press produces. -/
def keyDown (keymap : KeymapFn) (s : InputLayer) (code : UInt8) : Event × InputLayer :=
  let ev : Event := { code := code }
  if code = keyNone then (ev, s)
  else
    let (fresh, s) := s.trackDown code
    if !fresh then (ev, s)
    else if s.ghostRisk then
      -- the guard: nothing is emitted while three keys are down, not even for a valid key
      ({ ev with type := .refused }, { s with refused := s.refused + 1 })
    else
      let bit := modBit code
      if bit ≠ modNone then
        -- one-shot: arm it, or disarm it when it was armed
        (ev, { s with
          pending := if s.pending &&& bit ≠ 0 then s.pending &&& ~~~bit else s.pending ||| bit })
      else
        let applied := s.pending
        let s := { s with pending := modNone }
        let ch := match keymap with
          | some f => f code applied
          | none => 0
        if ch ≠ 0 then ({ ev with mods := applied, type := .char, ch := ch }, s)
        else ({ ev with mods := applied, type := .action }, s)

/-- `key_up`: releasing a modifier does not disarm it. -/
def keyUp (s : InputLayer) (code : UInt8) : InputLayer := (s.trackUp code).2

/-- `reset`: the refused counter is deliberately kept. -/
def reset (s : InputLayer) : InputLayer :=
  { s with pending := modNone, down := [], down_le := by decide, down_nodup := by simp }

/-! ## What one call does to the tracked keys -/

/-- A tracked key is not recorded again: a rebroadcast changes nothing. -/
theorem trackDown_of_mem {s : InputLayer} {code : UInt8} (h : code ∈ s.down) :
    s.trackDown code = (false, s) := by
  simp [trackDown, h]

/-- An untracked key is reported fresh. -/
theorem trackDown_fst_of_notMem {s : InputLayer} {code : UInt8} (h : code ∉ s.down) :
    (s.trackDown code).1 = true := by
  unfold trackDown
  rw [dif_neg h]
  split <;> rfl

/-- While the array has room, a press adds its key to the tracked set. -/
theorem trackDown_toFinset {s : InputLayer} {code : UInt8}
    (h : code ∈ s.down ∨ s.down.length < maxTracked) :
    (s.trackDown code).2.down.toFinset = insert code s.down.toFinset := by
  unfold trackDown
  split
  · next hmem => exact (Finset.insert_eq_self.mpr (List.mem_toFinset.mpr hmem)).symm
  · next hmem =>
    rw [dif_pos (h.resolve_left hmem), List.toFinset_append, List.toFinset_cons,
      List.toFinset_nil, Finset.union_comm]
    rfl

/-- A full array loses the key it is asked to record. -/
theorem trackDown_of_full {s : InputLayer} {code : UInt8} (h : code ∉ s.down)
    (hfull : s.down.length = maxTracked) : s.trackDown code = (true, s) := by
  simp [trackDown, h, hfull]

/-- A release removes its key from the tracked set. -/
theorem keyUp_toFinset (s : InputLayer) (code : UInt8) :
    (s.keyUp code).down.toFinset = s.down.toFinset.erase code := by
  unfold keyUp trackUp
  split
  · next hmem =>
    ext c
    simp [s.down_nodup.mem_erase_iff]
  · next hmem => exact (Finset.erase_eq_of_notMem (by simpa using hmem)).symm

/-- Only `track_down` touches the tracked keys of a press. -/
theorem keyDown_down (keymap : KeymapFn) (s : InputLayer) {code : UInt8} (h : code ≠ keyNone) :
    (keyDown keymap s code).2.down = (s.trackDown code).2.down := by
  unfold keyDown
  rw [if_neg h]
  cases s.trackDown code with
  | mk fresh t => grind

/-- The number of distinct tracked keys is the count. -/
theorem card_down (s : InputLayer) : s.down.toFinset.card = s.down.length :=
  List.toFinset_card_of_nodup s.down_nodup

/-- `ghost_risk` counts the tracked keys. -/
theorem ghostRisk_iff (s : InputLayer) :
    s.ghostRisk = true ↔ ghostThreshold ≤ s.down.toFinset.card := by
  rw [ghostRisk, decide_eq_true_iff, card_down]

/-- A press of a tracked key reports nothing and changes nothing. -/
theorem keyDown_of_mem (keymap : KeymapFn) {s : InputLayer} {code : UInt8} (h : code ∈ s.down) :
    keyDown keymap s code = ({ code := code }, s) := by
  unfold keyDown
  rw [trackDown_of_mem h]
  simp

/-- A fresh press that leaves three keys tracked is refused. -/
theorem keyDown_of_ghostRisk (keymap : KeymapFn) {s : InputLayer} {code : UInt8}
    (hne : code ≠ keyNone) (h : code ∉ s.down) (hrisk : (s.trackDown code).2.ghostRisk = true) :
    (keyDown keymap s code).1.type = .refused := by
  have hfresh := trackDown_fst_of_notMem h
  unfold keyDown
  rw [if_neg hne]
  cases hs : s.trackDown code with
  | mk fresh t =>
    rw [hs] at hfresh hrisk
    simp_all

end InputLayer

end Thicket.Keypad
