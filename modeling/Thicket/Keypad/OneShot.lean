import Mathlib.Algebra.Ring.Parity
import Mathlib.Data.Finset.SymmDiff
import Mathlib.Data.Fintype.Powerset
import Mathlib.Data.List.DropRight
import Thicket.Base.Runs
import Thicket.Keypad.InputLayer

/-! # One-shot modifiers over whole runs

What is armed is read off the history: of the calls since the last character, action or reset,
each modifier counts its accepted presses, and an odd count is armed. The layer keeps that set in
`_pending` through every interleaving of presses, releases, refusals and resets, and spends it on
the next accepted ordinary key. -/

namespace Thicket.Keypad

open Runs InputLayer

/-- The three one-shot modifier keys. -/
inductive Modifier where
  /-- `KEY_SHIFT`. -/
  | shift
  /-- `KEY_ALT`. -/
  | alt
  /-- `KEY_SYM`. -/
  | sym
  deriving DecidableEq

instance : Fintype Modifier where
  elems := {.shift, .alt, .sym}
  complete := by
    intro m
    cases m <;> decide

/-- The key code of a modifier. -/
def Modifier.key : Modifier → UInt8
  | .shift => keyShift
  | .alt => keyAlt
  | .sym => keySym

/-- The bit of a modifier in a mask. -/
def Modifier.bit : Modifier → UInt8
  | .shift => modShift
  | .alt => modAlt
  | .sym => modSym

/-- The mask of a set of modifiers. -/
def mask (mods : Finset Modifier) : UInt8 :=
  (if .shift ∈ mods then modShift else modNone) |||
    (if .alt ∈ mods then modAlt else modNone) |||
    (if .sym ∈ mods then modSym else modNone)

@[simp] theorem mask_empty : mask ∅ = modNone := rfl

/-- `mod_bit` finds the bit of a modifier key. -/
@[simp] theorem modBit_key (m : Modifier) : modBit m.key = m.bit := by
  cases m <;> rfl

/-- Every modifier has a bit. -/
theorem Modifier.bit_ne_none (m : Modifier) : m.bit ≠ modNone := by
  cases m <;> decide

/-- Modifier keys are told apart by their codes. -/
theorem Modifier.key_injective : Function.Injective Modifier.key := by
  intro m n h
  cases m <;> cases n <;> first | rfl | exact absurd h (by decide)

/-- A code with a modifier bit is the code of a modifier. -/
theorem exists_key_of_modBit_ne {code : UInt8} (h : modBit code ≠ modNone) :
    ∃ m : Modifier, m.key = code := by
  unfold modBit at h
  split at h
  · next hcode => exact ⟨.shift, hcode.symm⟩
  · split at h
    · next hcode => exact ⟨.alt, hcode.symm⟩
    · split at h
      · next hcode => exact ⟨.sym, hcode.symm⟩
      · exact absurd rfl h

/-- Arming or disarming one bit of a mask is the symmetric difference with its modifier. -/
theorem mask_toggle (mods : Finset Modifier) (m : Modifier) :
    (if mask mods &&& m.bit ≠ 0 then mask mods &&& ~~~m.bit else mask mods ||| m.bit)
      = mask (symmDiff mods {m}) := by
  revert mods m
  decide

/-! ## What one press does -/

/-- `track_down` reports the press fresh and the ghost guard does not refuse it. -/
def Accepts (s : InputLayer) (code : UInt8) : Prop :=
  code ≠ keyNone ∧ (s.trackDown code).1 = true ∧ (s.trackDown code).2.ghostRisk = false

instance (s : InputLayer) (code : UInt8) : Decidable (Accepts s code) :=
  inferInstanceAs (Decidable (_ ∧ _ ∧ _))

/-- The keymap's value for a key under a set of modifiers; without a keymap there is none. -/
def keymapChar (keymap : KeymapFn) (code mods : UInt8) : UInt8 :=
  match keymap with
  | some f => f code mods
  | none => 0

/-- The event is a character or an action. -/
def Event.spends (e : Event) : Bool := e.type = .char || e.type = .action

/-- Tracking a key leaves the armed modifiers alone. -/
@[simp] theorem trackDown_pending (s : InputLayer) (code : UInt8) :
    (s.trackDown code).2.pending = s.pending := by
  unfold trackDown
  split
  · rfl
  · split <;> rfl

/-- Releasing a key leaves the armed modifiers alone. -/
@[simp] theorem keyUp_pending (s : InputLayer) (code : UInt8) :
    (s.keyUp code).pending = s.pending := by
  unfold keyUp trackUp
  split <;> rfl

/-- A press that is not accepted types nothing and arms nothing. -/
theorem keyDown_of_not_accepts (keymap : KeymapFn) {s : InputLayer} {code : UInt8}
    (h : ¬ Accepts s code) :
    (keyDown keymap s code).1.spends = false ∧
      (keyDown keymap s code).2.pending = s.pending := by
  have hpending := trackDown_pending s code
  unfold keyDown
  by_cases hnone : code = keyNone
  · rw [if_pos hnone]
    exact ⟨rfl, rfl⟩
  · rw [if_neg hnone]
    cases htrack : s.trackDown code with
    | mk fresh t =>
      rw [htrack] at hpending
      cases fresh with
      | false => exact ⟨rfl, hpending⟩
      | true =>
        have hrisk : t.ghostRisk = true := by
          by_contra hno
          exact h ⟨hnone, by rw [htrack], by rw [htrack]; simpa using hno⟩
        simp only [hrisk, Bool.not_true, Bool.false_eq_true, if_false, if_true]
        exact ⟨rfl, hpending⟩

/-- An accepted press of a modifier toggles its bit and types nothing. -/
theorem keyDown_modifier (keymap : KeymapFn) {s : InputLayer} {m : Modifier}
    (h : Accepts s m.key) :
    (keyDown keymap s m.key).1.spends = false ∧
      (keyDown keymap s m.key).2.pending =
        if s.pending &&& m.bit ≠ 0 then s.pending &&& ~~~m.bit else s.pending ||| m.bit := by
  obtain ⟨hnone, hfresh, hrisk⟩ := h
  have hpending := trackDown_pending s m.key
  unfold keyDown
  rw [if_neg hnone]
  cases htrack : s.trackDown m.key with
  | mk fresh t =>
    rw [htrack] at hfresh hrisk hpending
    dsimp only at hfresh hrisk hpending ⊢
    rw [hfresh, hrisk, modBit_key, if_pos m.bit_ne_none, hpending]
    exact ⟨rfl, rfl⟩

/-- **An accepted ordinary key spends what is armed**: it comes out as the keymap's character for
the armed set, or as an action where there is none, and nothing stays armed. -/
theorem keyDown_ordinary (keymap : KeymapFn) {s : InputLayer} {code : UInt8}
    (h : Accepts s code) (hbit : modBit code = modNone) :
    (keyDown keymap s code).1 =
        { type := if keymapChar keymap code s.pending ≠ 0 then .char else .action
          ch := keymapChar keymap code s.pending
          code := code
          mods := s.pending } ∧
      (keyDown keymap s code).2.pending = modNone := by
  obtain ⟨hnone, hfresh, hrisk⟩ := h
  have hpending := trackDown_pending s code
  unfold keyDown
  rw [if_neg hnone]
  cases htrack : s.trackDown code with
  | mk fresh t =>
    rw [htrack] at hfresh hrisk hpending
    dsimp only at hfresh hrisk hpending ⊢
    rw [hfresh, hrisk, hbit, hpending]
    cases keymap with
    | none => exact ⟨rfl, rfl⟩
    | some f => by_cases hch : f code s.pending = 0 <;> simp [keymapChar, hch]

/-- An accepted ordinary key comes out as a character or an action. -/
theorem spends_of_ordinary (keymap : KeymapFn) {s : InputLayer} {code : UInt8}
    (h : Accepts s code) (hbit : modBit code = modNone) :
    (keyDown keymap s code).1.spends = true := by
  rw [(keyDown_ordinary keymap h hbit).1, Event.spends]
  split <;> rfl

/-- Only an accepted ordinary key comes out as a character or an action. -/
theorem ordinary_of_spends {keymap : KeymapFn} {s : InputLayer} {code : UInt8}
    (h : (keyDown keymap s code).1.spends = true) : Accepts s code ∧ modBit code = modNone := by
  have hacc : Accepts s code := by
    by_contra hno
    rw [(keyDown_of_not_accepts keymap hno).1] at h
    exact absurd h (by decide)
  refine ⟨hacc, ?_⟩
  by_contra hbit
  obtain ⟨m, rfl⟩ := exists_key_of_modBit_ne hbit
  rw [(keyDown_modifier keymap hacc).1] at h
  exact absurd h (by decide)

/-! ## Histories -/

/-- The calls of the layer's owner, by any code. -/
inductive LayerCall where
  /-- `key_down(code)`. -/
  | keyDown (code : UInt8)
  /-- `key_up(code)`. -/
  | keyUp (code : UInt8)
  /-- `reset()`. -/
  | reset
  deriving DecidableEq

/-- The layer after one more call. -/
def callStep (keymap : KeymapFn) (s : InputLayer) : LayerCall → InputLayer
  | .keyDown code => (keyDown keymap s code).2
  | .keyUp code => s.keyUp code
  | .reset => s.reset

/-- The layer after a sequence of calls since construction. -/
def afterCalls (keymap : KeymapFn) (calls : List LayerCall) : InputLayer :=
  run (callStep keymap) {} calls

/-- One call of a history, with the layer it found. -/
structure Entry where
  /-- The layer before the call. -/
  layer : InputLayer
  /-- The call. -/
  call : LayerCall

/-- The history of a sequence of calls. -/
def history (keymap : KeymapFn) (calls : List LayerCall) : List Entry :=
  outputs (callStep keymap) (fun s call => [⟨s, call⟩]) {} calls

/-- The call was a reset, or a press that came out as a character or an action. -/
def Entry.ends (keymap : KeymapFn) (e : Entry) : Bool :=
  match e.call with
  | .keyDown code => (keyDown keymap e.layer code).1.spends
  | .keyUp _ => false
  | .reset => true

@[simp] theorem ends_keyDown (keymap : KeymapFn) (s : InputLayer) (code : UInt8) :
    Entry.ends keymap ⟨s, .keyDown code⟩ = (keyDown keymap s code).1.spends := rfl

/-- The call was an accepted press of the modifier. -/
def Entry.presses (m : Modifier) (e : Entry) : Bool :=
  decide (e.call = .keyDown m.key ∧ Accepts e.layer m.key)

/-- **What is armed, from the history alone**: the modifiers with an odd number of accepted
presses since the last character, action or reset. -/
def armed (keymap : KeymapFn) (entries : List Entry) : Finset Modifier :=
  Finset.univ.filter fun m =>
    Odd ((entries.rtakeWhile fun e => !e.ends keymap).countP fun e => e.presses m)

/-- What is armed after a sequence of calls. -/
def armedAfter (keymap : KeymapFn) (calls : List LayerCall) : Finset Modifier :=
  armed keymap (history keymap calls)

/-! ## The history after one more call -/

/-- One more call adds one entry. -/
theorem history_concat (keymap : KeymapFn) (calls : List LayerCall) (call : LayerCall) :
    history keymap (calls ++ [call])
      = history keymap calls ++ [⟨afterCalls keymap calls, call⟩] := by
  simp [history, afterCalls]

/-- One more call is one more step. -/
theorem afterCalls_concat (keymap : KeymapFn) (calls : List LayerCall) (call : LayerCall) :
    afterCalls keymap (calls ++ [call]) = callStep keymap (afterCalls keymap calls) call := by
  simp [afterCalls]

/-- An entry that spends or resets leaves nothing armed. -/
theorem armed_concat_of_ends {keymap : KeymapFn} {e : Entry} (h : e.ends keymap = true)
    (es : List Entry) : armed keymap (es ++ [e]) = ∅ := by
  simp [armed, h]

/-- Any other entry toggles the modifiers it is an accepted press of. -/
theorem armed_concat_of_not_ends {keymap : KeymapFn} {e : Entry} (h : e.ends keymap = false)
    (es : List Entry) :
    armed keymap (es ++ [e])
      = symmDiff (armed keymap es) (Finset.univ.filter fun m => e.presses m) := by
  ext m
  rw [armed, armed, List.rtakeWhile_concat_pos _ _ _ (by simp [h])]
  simp only [Finset.mem_symmDiff, Finset.mem_filter, Finset.mem_univ, true_and,
    List.countP_append, List.countP_singleton]
  -- one more accepted press flips the parity
  by_cases hp : e.presses m = true
  · simp [hp, Nat.odd_add_one]
  · simp [hp]

/-- An entry that presses no modifier and spends nothing keeps what is armed. -/
theorem armed_concat_of_idle {keymap : KeymapFn} {e : Entry} (h : e.ends keymap = false)
    (hidle : ∀ m, e.presses m = false) (es : List Entry) :
    armed keymap (es ++ [e]) = armed keymap es := by
  rw [armed_concat_of_not_ends h]
  simp [hidle]

/-- An accepted press of a modifier toggles it alone. -/
theorem armed_concat_of_presses {keymap : KeymapFn} {s : InputLayer} {m : Modifier}
    (h : Accepts s m.key) (es : List Entry) :
    armed keymap (es ++ [⟨s, .keyDown m.key⟩]) = symmDiff (armed keymap es) {m} := by
  have hends : Entry.ends keymap ⟨s, .keyDown m.key⟩ = false := by
    rw [ends_keyDown, (keyDown_modifier keymap h).1]
  have hself : (Finset.univ.filter fun n => Entry.presses n ⟨s, .keyDown m.key⟩) = {m} := by
    ext n
    simp only [Entry.presses, Finset.mem_filter, Finset.mem_univ, true_and, decide_eq_true_eq,
      Finset.mem_singleton, LayerCall.keyDown.injEq]
    constructor
    · intro hn
      exact (Modifier.key_injective hn.1).symm
    · rintro rfl
      exact ⟨rfl, h⟩
  rw [armed_concat_of_not_ends hends, hself]

/-- A press that is not an accepted modifier press presses no modifier. -/
theorem presses_eq_false_of_not_accepts {s : InputLayer} {code : UInt8} (h : ¬ Accepts s code)
    (m : Modifier) : Entry.presses m ⟨s, .keyDown code⟩ = false := by
  simp only [Entry.presses, decide_eq_false_iff_not, LayerCall.keyDown.injEq]
  rintro ⟨rfl, hacc⟩
  exact h hacc

/-! ## What is armed after one more call -/

/-- A reset disarms everything. -/
theorem armedAfter_reset (keymap : KeymapFn) (calls : List LayerCall) :
    armedAfter keymap (calls ++ [.reset]) = ∅ := by
  rw [armedAfter, history_concat]
  exact armed_concat_of_ends rfl _

/-- An accepted modifier press toggles its modifier. -/
theorem armedAfter_modifier {keymap : KeymapFn} {calls : List LayerCall} {m : Modifier}
    (h : Accepts (afterCalls keymap calls) m.key) :
    armedAfter keymap (calls ++ [.keyDown m.key]) = symmDiff (armedAfter keymap calls) {m} := by
  rw [armedAfter, history_concat]
  exact armed_concat_of_presses h _

/-- An accepted ordinary press spends the armed set. -/
theorem armedAfter_ordinary {keymap : KeymapFn} {calls : List LayerCall} {code : UInt8}
    (h : Accepts (afterCalls keymap calls) code) (hbit : modBit code = modNone) :
    armedAfter keymap (calls ++ [.keyDown code]) = ∅ := by
  rw [armedAfter, history_concat]
  apply armed_concat_of_ends
  rw [ends_keyDown, spends_of_ordinary keymap h hbit]

/-- A release, a refused press or a rebroadcast keeps the armed set. -/
theorem armedAfter_idle {keymap : KeymapFn} {calls : List LayerCall} {call : LayerCall}
    (hreset : call ≠ .reset)
    (h : ∀ code, call = .keyDown code → ¬ Accepts (afterCalls keymap calls) code) :
    armedAfter keymap (calls ++ [call]) = armedAfter keymap calls := by
  rw [armedAfter, history_concat]
  cases call with
  | reset => exact absurd rfl hreset
  | keyUp code => exact armed_concat_of_idle rfl (fun m => by simp [Entry.presses]) _
  | keyDown code =>
    have hno := h code rfl
    apply armed_concat_of_idle
    · rw [ends_keyDown, (keyDown_of_not_accepts keymap hno).1]
    · exact presses_eq_false_of_not_accepts hno

/-! ## The whole run -/

/-- **The pending mask is the armed set** after every sequence of calls. -/
theorem pending_eq_mask_armed (keymap : KeymapFn) (calls : List LayerCall) :
    (afterCalls keymap calls).pending = mask (armedAfter keymap calls) := by
  induction calls using List.reverseRecOn with
  | nil =>
    have harmed : armedAfter keymap [] = ∅ := by simp [armedAfter, history, armed]
    rw [harmed]
    rfl
  | append_singleton calls call ih =>
    rw [afterCalls_concat]
    cases call with
    | keyUp code =>
      rw [callStep, keyUp_pending, ih, armedAfter_idle (by simp) (by simp)]
    | reset =>
      rw [armedAfter_reset]
      rfl
    | keyDown code =>
      rw [callStep]
      by_cases hacc : Accepts (afterCalls keymap calls) code
      · by_cases hbit : modBit code = modNone
        · rw [(keyDown_ordinary keymap hacc hbit).2, armedAfter_ordinary hacc hbit, mask_empty]
        · obtain ⟨m, rfl⟩ := exists_key_of_modBit_ne hbit
          rw [(keyDown_modifier keymap hacc).2, ih, mask_toggle, armedAfter_modifier hacc]
      · rw [(keyDown_of_not_accepts keymap hacc).2, ih, armedAfter_idle (by simp)]
        rintro _ ⟨rfl⟩
        exact hacc

/-- **One-shot modifiers apply exactly once over a sequence of calls.** -/
structure AppliesOnce (keymap : KeymapFn) (calls : List LayerCall) : Prop where
  /-- Between calls `pending_mods()` is the armed set. -/
  pending : ∀ pre, pre <+: calls →
    (afterCalls keymap pre).pending = mask (armedAfter keymap pre)
  /-- A character or an action carries the armed set, and its character is the keymap's for it. -/
  event : ∀ pre code, pre ++ [.keyDown code] <+: calls →
    (keyDown keymap (afterCalls keymap pre) code).1.spends = true →
    (keyDown keymap (afterCalls keymap pre) code).1 =
      { type := if keymapChar keymap code (mask (armedAfter keymap pre)) ≠ 0
          then .char else .action
        ch := keymapChar keymap code (mask (armedAfter keymap pre))
        code := code
        mods := mask (armedAfter keymap pre) }
  /-- Every accepted press of an ordinary key is such an event, and nothing stays armed. -/
  spent : ∀ pre code, pre ++ [.keyDown code] <+: calls →
    Accepts (afterCalls keymap pre) code → modBit code = modNone →
    (keyDown keymap (afterCalls keymap pre) code).1.spends = true ∧
      armedAfter keymap (pre ++ [.keyDown code]) = ∅
  /-- An accepted press of a modifier toggles it and reports no character and no action. -/
  toggled : ∀ pre m, pre ++ [.keyDown m.key] <+: calls →
    Accepts (afterCalls keymap pre) m.key →
    (keyDown keymap (afterCalls keymap pre) m.key).1.spends = false ∧
      armedAfter keymap (pre ++ [.keyDown m.key]) = symmDiff (armedAfter keymap pre) {m}
  /-- Releases, refused presses and rebroadcasts neither arm, disarm nor spend. -/
  inert : ∀ pre call, pre ++ [call] <+: calls → call ≠ .reset →
    (∀ code, call = .keyDown code → ¬ Accepts (afterCalls keymap pre) code) →
    armedAfter keymap (pre ++ [call]) = armedAfter keymap pre ∧
      ∀ code, call = .keyDown code →
        (keyDown keymap (afterCalls keymap pre) code).1.spends = false

/-- **One-shot modifiers apply exactly once**, over every sequence of `key_down`, `key_up` and
`reset` calls and under every keymap. -/
theorem one_shot_applies_once (keymap : KeymapFn) (calls : List LayerCall) :
    AppliesOnce keymap calls where
  pending pre _ := pending_eq_mask_armed keymap pre
  event := by
    intro pre code _ hspends
    obtain ⟨hacc, hbit⟩ := ordinary_of_spends hspends
    rw [← pending_eq_mask_armed]
    exact (keyDown_ordinary keymap hacc hbit).1
  spent := by
    intro pre code _ hacc hbit
    exact ⟨spends_of_ordinary keymap hacc hbit, armedAfter_ordinary hacc hbit⟩
  toggled := by
    intro pre m _ hacc
    exact ⟨(keyDown_modifier keymap hacc).1, armedAfter_modifier hacc⟩
  inert := by
    intro pre call _ hreset hno
    refine ⟨armedAfter_idle hreset hno, ?_⟩
    intro code hcall
    exact (keyDown_of_not_accepts keymap (hno code hcall)).1

/-- Shift pressed twice and Alt once: the next key carries Alt alone. -/
example :
    let calls : List LayerCall :=
      [.keyDown keyShift, .keyUp keyShift, .keyDown keyAlt, .keyUp keyAlt, .keyDown keyShift,
        .keyUp keyShift]
    armedAfter none calls = {.alt} ∧
      (keyDown none (afterCalls none calls) 8).1.mods = modAlt := by
  decide

end Thicket.Keypad
