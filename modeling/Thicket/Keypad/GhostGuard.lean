import Mathlib.Data.List.Basic
import Mathlib.Data.Finset.Card
import Thicket.Base.Runs
import Thicket.Keypad.InputLayer

/-! # The ghost guard over whole runs

The abstract side of the input layer is the set of keys pressed and not yet released, computed
from the calls alone. While that set has at most `MAX_TRACKED` keys the array holds exactly it,
and the guard speaks about the keys really held; the ninth simultaneous key is lost. -/

namespace Thicket.Keypad

open Runs

/-- A key code that stands for a key. -/
abbrev Key : Type := { c : UInt8 // c ≠ keyNone }

/-- The two calls the scanner makes. -/
inductive Call where
  /-- `key_down(c)`. -/
  | down (c : Key)
  /-- `key_up(c)`. -/
  | up (c : Key)
  deriving DecidableEq

/-- The held keys after one more call. -/
def heldStep (held : Finset UInt8) : Call → Finset UInt8
  | .down c => insert c.1 held
  | .up c => held.erase c.1

/-- **The keys pressed and not yet released**, from the calls since construction. -/
def heldAfter (calls : List Call) : Finset UInt8 := run heldStep ∅ calls

/-- The layer after one more call. -/
def layerStep (keymap : KeymapFn) (s : InputLayer) : Call → InputLayer
  | .down c => (InputLayer.keyDown keymap s c.1).2
  | .up c => s.keyUp c.1

/-- The layer after a sequence of calls since construction. -/
def layerAfter (keymap : KeymapFn) (calls : List Call) : InputLayer :=
  run (layerStep keymap) {} calls

/-- **The ghost guard holds throughout a sequence of calls**: after every prefix `ghost_risk` is
true exactly when three keys are held, and at every press no character and no action comes out
while three keys are held after it, and a press of a held key reports nothing and changes
nothing. -/
structure GhostGuard (keymap : KeymapFn) (calls : List Call) : Prop where
  /-- `ghost_risk` is about the keys really held. -/
  risk : ∀ pre, pre <+: calls →
    ((layerAfter keymap pre).ghostRisk = true ↔ 3 ≤ (heldAfter pre).card)
  /-- Nothing is typed while three keys are held. -/
  silent : ∀ pre c, pre ++ [Call.down c] <+: calls →
    3 ≤ (heldAfter (pre ++ [Call.down c])).card →
    (InputLayer.keyDown keymap (layerAfter keymap pre) c.1).1.type ≠ .char ∧
      (InputLayer.keyDown keymap (layerAfter keymap pre) c.1).1.type ≠ .action
  /-- A rebroadcast is ignored. -/
  rebroadcast : ∀ pre c, pre ++ [Call.down c] <+: calls → c.1 ∈ heldAfter pre →
    (InputLayer.keyDown keymap (layerAfter keymap pre) c.1).1.type = .none ∧
      (InputLayer.keyDown keymap (layerAfter keymap pre) c.1).2 = layerAfter keymap pre

/-- At no point of the sequence are more than `MAX_TRACKED` keys held. -/
def FitsTracker (calls : List Call) : Prop :=
  Along heldStep (fun held call => (heldStep held call).card ≤ maxTracked) ∅ calls

instance (calls : List Call) : Decidable (FitsTracker calls) :=
  inferInstanceAs (Decidable (Along _ _ _ _))

/-- The array holds exactly the held keys. -/
def Tracks (held : Finset UInt8) (s : InputLayer) : Prop := s.down.toFinset = held

/-- One call that leaves at most eight keys held keeps the array equal to the held set. -/
theorem Tracks.step (keymap : KeymapFn) {held : Finset UInt8} {s : InputLayer} {call : Call}
    (h : Tracks held s) (hcard : (heldStep held call).card ≤ maxTracked) :
    Tracks (heldStep held call) (layerStep keymap s call) := by
  cases call with
  | up c =>
    rw [Tracks, heldStep, layerStep, InputLayer.keyUp_toFinset, h]
  | down c =>
    -- a new key leaves at most eight held, so there is room for it in the array
    have hroom : c.1 ∈ s.down ∨ s.down.length < maxTracked := by
      by_cases hmem : c.1 ∈ s.down
      · exact Or.inl hmem
      · have hnot : c.1 ∉ held := by rw [← h]; simpa using hmem
        rw [heldStep, Finset.card_insert_of_notMem hnot, ← h, InputLayer.card_down] at hcard
        exact Or.inr hcard
    rw [Tracks, heldStep, layerStep, InputLayer.keyDown_down keymap s c.2,
      InputLayer.trackDown_toFinset hroom, h]

/-- **The array is the held set** after any sequence that fits the tracker. -/
theorem tracks_of_fitsTracker (keymap : KeymapFn) {calls : List Call} (h : FitsTracker calls) :
    Tracks (heldAfter calls) (layerAfter keymap calls) := by
  have hrun : Tracks (run heldStep ∅ calls) (run (layerStep keymap) {} (calls.map id)) :=
    Along.simulation id Tracks (fun held s call hR hok => hR.step keymap hok) h rfl
  simpa [heldAfter, layerAfter] using hrun

/-- Where the array is the held set, `ghost_risk` counts the held keys. -/
theorem Tracks.risk_iff {held : Finset UInt8} {s : InputLayer} (h : Tracks held s) :
    s.ghostRisk = true ↔ 3 ≤ held.card := by
  rw [InputLayer.ghostRisk_iff, h, ghostThreshold]

/-- Where the array stays the held set, a press that leaves three keys held types nothing. -/
theorem Tracks.silent (keymap : KeymapFn) {held : Finset UInt8} {s : InputLayer} {c : Key}
    (h : Tracks held s) (hcard : (insert c.1 held).card ≤ maxTracked)
    (h3 : 3 ≤ (insert c.1 held).card) :
    (InputLayer.keyDown keymap s c.1).1.type = .none ∨
      (InputLayer.keyDown keymap s c.1).1.type = .refused := by
  by_cases hmem : c.1 ∈ s.down
  · exact Or.inl (by rw [InputLayer.keyDown_of_mem keymap hmem])
  · refine Or.inr (InputLayer.keyDown_of_ghostRisk keymap c.2 hmem ?_)
    have hstep : Tracks (heldStep held (.down c)) (layerStep keymap s (.down c)) :=
      h.step keymap hcard
    rw [Tracks, layerStep, InputLayer.keyDown_down keymap s c.2] at hstep
    exact (Tracks.risk_iff hstep).mpr h3

/-- With eight keys in the array, a ninth is lost: pressing it again is refused, not ignored. -/
theorem keyDown_again_of_full (keymap : KeymapFn) {s : InputLayer} {c : Key}
    (hnot : c.1 ∉ s.down) (hfull : s.down.length = maxTracked) :
    (InputLayer.keyDown keymap (layerStep keymap s (.down c)) c.1).1.type = .refused := by
  have hdown : (layerStep keymap s (.down c)).down = s.down := by
    rw [layerStep, InputLayer.keyDown_down keymap s c.2, InputLayer.trackDown_of_full hnot hfull]
  have hnot' : c.1 ∉ (layerStep keymap s (.down c)).down := by rwa [hdown]
  refine InputLayer.keyDown_of_ghostRisk keymap c.2 hnot' ?_
  rw [InputLayer.trackDown_of_full hnot' (by rw [hdown, hfull]), InputLayer.ghostRisk, hdown, hfull]
  rfl

/-- A sequence that outgrows the tracker has a first press that does. -/
theorem exists_ninth_key {calls : List Call} (h : ¬ FitsTracker calls) :
    ∃ pre c, pre ++ [Call.down c] <+: calls ∧ FitsTracker pre ∧ c.1 ∉ heldAfter pre ∧
      maxTracked ≤ (heldAfter pre).card := by
  obtain ⟨pre, call, hpre, hfit, hlast⟩ := exists_first_of_not_along h
  have hlast : ¬ (heldStep (heldAfter pre) call).card ≤ maxTracked := hlast
  have hle : (heldAfter pre).card ≤ maxTracked := by
    have htrack := tracks_of_fitsTracker none hfit
    rw [← htrack, InputLayer.card_down]
    exact (layerAfter none pre).down_le
  -- a release only takes a key away, so the call that outgrows the tracker is a press
  cases call with
  | up c => exact absurd ((Finset.card_erase_le).trans hle) hlast
  | down c =>
    refine ⟨pre, c, hpre, hfit, ?_, ?_⟩
    · intro hmem
      rw [heldStep, Finset.insert_eq_self.mpr hmem] at hlast
      exact hlast hle
    · have hins := Finset.card_insert_le c.1 (heldAfter pre)
      rw [heldStep] at hlast
      omega

/-- **The ghost guard over every run.** While never more than eight keys are held, the guard holds
throughout; and a sequence that does hold a ninth has a prefix after which pressing one key again
breaks it. -/
theorem ghost_guard (keymap : KeymapFn) (calls : List Call) :
    (FitsTracker calls → GhostGuard keymap calls) ∧
      (¬ FitsTracker calls → ∃ pre c, pre ++ [Call.down c] <+: calls ∧
        ¬ GhostGuard keymap (pre ++ [Call.down c, Call.down c])) := by
  constructor
  · intro hfit
    refine ⟨fun pre hpre => ?_, fun pre c hpre h3 => ?_, fun pre c hpre hmem => ?_⟩
    · exact (tracks_of_fitsTracker keymap (Along.of_isPrefix hfit hpre)).risk_iff
    · have hlast := along_append.mp (Along.of_isPrefix hfit hpre)
      have h3' : 3 ≤ (insert c.1 (heldAfter pre)).card := by
        simpa [heldAfter, heldStep] using h3
      rcases (tracks_of_fitsTracker keymap hlast.1).silent keymap hlast.2.1 h3' with ht | ht <;>
        simp [ht]
    · have htrack := tracks_of_fitsTracker keymap (along_append.mp (Along.of_isPrefix hfit hpre)).1
      have hdown : c.1 ∈ (layerAfter keymap pre).down := by
        rw [← htrack] at hmem; simpa using hmem
      simp [InputLayer.keyDown_of_mem keymap hdown]
  · intro hnot
    -- the ninth key is lost by the array, so pressing it again does not count as a rebroadcast
    obtain ⟨pre, c, hpre, hfit, hmem, hcard⟩ := exists_ninth_key hnot
    refine ⟨pre, c, hpre, fun hguard => ?_⟩
    have htrack := tracks_of_fitsTracker keymap hfit
    have hdown : c.1 ∉ (layerAfter keymap pre).down := by
      rw [← htrack] at hmem; simpa using hmem
    have hfull : (layerAfter keymap pre).down.length = maxTracked := by
      rw [← htrack, InputLayer.card_down] at hcard
      exact le_antisymm (layerAfter keymap pre).down_le hcard
    have hre := hguard.rebroadcast (pre ++ [.down c]) c (by simp)
      (by simp [heldAfter, heldStep])
    have hagain := keyDown_again_of_full keymap hdown hfull
    simp only [layerAfter, run_append, run_cons, run_nil] at hre hagain
    rw [hagain] at hre
    exact absurd hre.1 (by decide)

/-- Two keys rolled over each other stay within the tracker, and the guard holds over them. -/
theorem ghost_guard_rollover :
    let a : Key := ⟨8, by decide⟩
    let b : Key := ⟨9, by decide⟩
    FitsTracker [.down a, .down b, .up a, .up b] ∧
      GhostGuard none [.down a, .down b, .up a, .up b] :=
  ⟨by decide, (ghost_guard none _).1 (by decide)⟩

/-- Nine distinct keys pressed and six of them released: three are held, and `ghost_risk` says
two. -/
def nineKeysSixReleased : List Call :=
  let key (n : Nat) (h : UInt8.ofNat n ≠ keyNone) : Key := ⟨UInt8.ofNat n, h⟩
  [.down (key 8 (by decide)), .down (key 9 (by decide)), .down (key 10 (by decide)),
    .down (key 11 (by decide)), .down (key 12 (by decide)), .down (key 13 (by decide)),
    .down (key 14 (by decide)), .down (key 15 (by decide)), .down (key 16 (by decide)),
    .up (key 8 (by decide)), .up (key 9 (by decide)), .up (key 10 (by decide)),
    .up (key 11 (by decide)), .up (key 12 (by decide)), .up (key 13 (by decide))]

/-- The guard does not hold over every run: three keys held, no ghost risk reported. -/
theorem ghost_guard_fails : ¬ GhostGuard none nineKeysSixReleased := by
  intro h
  have hrisk := h.risk nineKeysSixReleased List.prefix_rfl
  have hheld : 3 ≤ (heldAfter nineKeysSixReleased).card := by decide
  have hquiet : (layerAfter none nineKeysSixReleased).ghostRisk = false := by decide
  rw [hrisk.mpr hheld] at hquiet
  exact absurd hquiet (by decide)

end Thicket.Keypad
