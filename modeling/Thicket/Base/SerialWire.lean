import Thicket.Base.Runs

/-! # A synchronous serial line

Three wires: select, data, clock. While it is selected, the receiver takes the level of the data
wire at every rising edge of the clock and hands on a word for every `bits` of them; what it does
with a word, and at an edge of select, is a parameter. A sender that sets the data wire, raises the
clock and lowers it again gets its words across. -/

namespace Thicket.SerialWire

open Runs

/-- The wires. -/
inductive Wire where
  /-- Selects the receiver. -/
  | select
  /-- Carries a bit. -/
  | data
  /-- Its rising edge takes the bit. -/
  | clock
  deriving DecidableEq

/-- A wire is driven to a level. -/
abbrev Drive : Type := Wire × Bool

/-- What is behind the receiver. -/
structure Listener (α σ : Type*) where
  /-- The bits of a word. -/
  bits : Nat
  /-- A word, from its bits in the order they came. -/
  word : List Bool → α
  /-- What an edge of select does. -/
  select : σ → Bool → σ
  /-- What a word does. -/
  take : σ → α → σ

/-- The receiver, and the levels of the wires. -/
structure Receiver (σ : Type*) where
  /-- What is behind it. -/
  state : σ
  /-- The level of select. -/
  selected : Bool := false
  /-- The level of data. -/
  data : Bool := false
  /-- The level of clock. -/
  clock : Bool := false
  /-- The bits of an unfinished word. -/
  shifted : List Bool := []

variable {α σ : Type*} (L : Listener α σ)

/-- A bit is taken. -/
def shiftIn (r : Receiver σ) : Receiver σ :=
  let shifted := r.shifted ++ [r.data]
  if shifted.length < L.bits then { r with shifted }
  else { r with state := L.take r.state (L.word shifted), shifted := [] }

/-- **One wire is driven.** A level that does not change is no edge. -/
def drive (r : Receiver σ) : Drive → Receiver σ
  | (.select, on) =>
      if on = r.selected then r
      else { r with state := L.select r.state on, selected := on, shifted := [] }
  | (.data, level) => { r with data := level }
  | (.clock, level) =>
      let rising := level && !r.clock
      if r.selected && rising then { shiftIn L r with clock := level }
      else { r with clock := level }

/-- The sender's side of some bits. -/
def clockOut (bits : List Bool) : List Drive :=
  bits.flatMap fun b => [(.data, b), (.clock, true), (.clock, false)]

@[simp] theorem clockOut_cons (b : Bool) (bs : List Bool) :
    clockOut (b :: bs) = (.data, b) :: (.clock, true) :: (.clock, false) :: clockOut bs := rfl

/-- **Between words**: the clock is low and no bit is waiting. -/
structure Resting (r : Receiver σ) (selected : Bool) (s : σ) : Prop where
  /-- What is behind the receiver. -/
  state_eq : r.state = s
  /-- Whether it is selected. -/
  selected_eq : r.selected = selected
  /-- The clock is low. -/
  clock_low : r.clock = false
  /-- No bit is waiting. -/
  shifted_nil : r.shifted = []

variable {L} {r : Receiver σ} {s : σ}

/-- Select changes. -/
theorem Resting.drive_select {on : Bool} (h : Resting r (!on) s) :
    Resting (drive L r (.select, on)) on (L.select s on) := by
  have hedge : ¬ on = r.selected := by
    rw [h.selected_eq]
    cases on <;> decide
  rw [drive, if_neg hedge, h.state_eq]
  exact ⟨rfl, rfl, h.clock_low, rfl⟩

/-- One bit reaches a receiver that is selected. -/
theorem run_bit (hsel : r.selected = true) (hlow : r.clock = false) (b : Bool) :
    run (drive L) r [(.data, b), (.clock, true), (.clock, false)]
      = shiftIn L { r with data := b } := by
  unfold shiftIn
  simp only [run_cons, run_nil, drive, hsel, hlow, Bool.true_and, Bool.not_false, if_true,
    Bool.false_and, Bool.and_false, Bool.false_eq_true, if_false, shiftIn]
  split <;> rfl

/-- Bits that leave a word unfinished wait, whatever the data wire ends on. -/
theorem run_clockOut_short {bs : List Bool} (hsel : r.selected = true) (hlow : r.clock = false)
    (hlen : r.shifted.length + bs.length < L.bits) :
    ∃ level, run (drive L) r (clockOut bs)
      = { r with data := level, shifted := r.shifted ++ bs } := by
  induction bs generalizing r with
  | nil => exact ⟨r.data, by simp [clockOut]⟩
  | cons b bs ih =>
    rw [List.length_cons] at hlen
    have hfirst : shiftIn L { r with data := b }
        = { r with data := b, shifted := r.shifted ++ [b] } := by
      rw [shiftIn]
      exact if_pos (by simp only [List.length_append, List.length_singleton]; omega)
    obtain ⟨level, hrest⟩ := ih (r := { r with data := b, shifted := r.shifted ++ [b] }) hsel hlow
      (by simp only [List.length_append, List.length_singleton]; omega)
    refine ⟨level, ?_⟩
    have hsplit : clockOut (b :: bs)
        = [(.data, b), (.clock, true), (.clock, false)] ++ clockOut bs := rfl
    rw [hsplit, run_append, run_bit hsel hlow, hfirst, hrest]
    simp only [List.append_assoc, List.singleton_append]

/-- **A word gets across.** -/
theorem Resting.run_word {bs : List Bool} (h : Resting r true s) (hpos : 0 < L.bits)
    (hlen : bs.length = L.bits) :
    Resting (run (drive L) r (clockOut bs)) true (L.take s (L.word bs)) := by
  -- the last bit finishes the word
  obtain ⟨init, b, rfl⟩ : ∃ init b, bs = init ++ [b] :=
    ⟨_, _, (List.dropLast_append_getLast (List.ne_nil_of_length_pos (hlen ▸ hpos))).symm⟩
  rw [List.length_append, List.length_singleton] at hlen
  have hshort : r.shifted.length + init.length < L.bits := by
    rw [h.shifted_nil, List.length_nil]
    omega
  obtain ⟨level, hinit⟩ := run_clockOut_short h.selected_eq h.clock_low hshort
  have hsplit : clockOut (init ++ [b])
      = clockOut init ++ [(.data, b), (.clock, true), (.clock, false)] := by
    rw [clockOut, List.flatMap_append]
    rfl
  have hfull : ¬ (r.shifted ++ init ++ [b]).length < L.bits := by
    simp only [h.shifted_nil, List.nil_append, List.length_append, List.length_singleton]
    omega
  rw [hsplit, run_append, hinit,
    run_bit (by exact h.selected_eq) (by exact h.clock_low), shiftIn]
  dsimp only
  rw [if_neg hfull, h.state_eq, h.shifted_nil, List.nil_append]
  exact ⟨rfl, h.selected_eq, h.clock_low, rfl⟩

/-- **Words get across**, one after the other. -/
theorem Resting.run_words {words : List (List Bool)} (h : Resting r true s) (hpos : 0 < L.bits)
    (hlen : ∀ bs ∈ words, bs.length = L.bits) :
    Resting (run (drive L) r (words.flatMap clockOut)) true
      (words.foldl (fun s bs => L.take s (L.word bs)) s) := by
  induction words generalizing r s with
  | nil => exact h
  | cons bs words ih =>
    rw [List.flatMap_cons, run_append]
    exact ih (h.run_word hpos (hlen bs List.mem_cons_self)) fun bs' hbs' =>
      hlen bs' (List.mem_cons_of_mem bs hbs')

end Thicket.SerialWire
