import Thicket.Page.CellLines
import Thicket.Page.Prose

/-! # The slices of a cell carry its text

Where no sequence of a cell holds a space, a line begins and ends between codepoints, and between
two lines there are only spaces. So the codepoints of the slices, one slice after the other, are
those of the cell. -/

namespace Thicket.Page

open Thicket.Lcd Thicket.Page.Span

namespace Span

/-- The codepoints of a part of a run, spaces and tabs apart. -/
def letters (p : Span) (a b : Nat) : List UInt32 :=
  ((p.steps a b).filter fun k => !isSpace (p.byte k)).map fun k => codepointOf (p.glyph k)

/-- A part of a run counts its bytes from where it begins. -/
theorem glyph_sub (p : Span) (a n k : Nat) : (p.sub a n).glyph k = p.glyph (a + k) := by
  have hlen : (p.sub a n).seqLenAt k = p.seqLenAt (a + k) := rfl
  rw [glyph, glyph, hlen]
  exact List.map_congr_left fun b _ => congrArg p.byte (Nat.add_assoc a k b).symm

/-- The sequences of a part of a run. -/
theorem steps_sub (p : Span) {a b : Nat} (h : a ≤ b) :
    ((p.sub a (b - a)).steps 0 (b - a)).map (a + ·) = p.steps a b := by
  have hmap := map_positions_add p.seqLenAt a 0 (b - a)
  rw [Nat.add_zero, Nat.add_sub_cancel' h] at hmap
  exact hmap

/-- **The codepoints of a slice** are those of its part of the cell. -/
theorem letters_sub (p : Span) {a b : Nat} (h : a ≤ b) :
    (p.sub a (b - a)).letters 0 (b - a) = p.letters a b := by
  rw [letters, letters, ← p.steps_sub h, List.filter_map, List.map_map]
  exact List.map_congr_left fun k _ => congrArg codepointOf (p.glyph_sub a (b - a) k)

/-- The codepoints of a run, cut where a sequence ends. -/
theorem letters_cut (p : Span) {a b m : Nat} (h : Strides p.seqLenAt p.len a b) (hm : b ≤ m) :
    p.letters a m = p.letters a b ++ p.letters b m := by
  rw [letters, steps, positions_cut p.seqLenAt_pos h hm, List.filter_append, List.map_append]
  rfl

/-- Among spaces there are none. -/
theorem letters_spaces (p : Span) {a b : Nat} (h : ∀ k, a ≤ k → k < b → p.byte k = 0x20) :
    p.letters a b = [] := by
  rw [letters, List.map_eq_nil_iff, List.filter_eq_nil_iff]
  intro k hk
  obtain ⟨hle, hlt⟩ := mem_positions hk
  simp [h k hle hlt, isSpace]

end Span

/-! ## Lines end between codepoints -/

variable {p : Span} {w : Nat}

/-- **A cell that breaks between its sequences**: none holds a space behind its first byte, and the
last ends in the cell. -/
structure Unbroken (t : Span) : Prop where
  /-- Sequences end in the cell. -/
  step_le : ∀ k ∈ t.steps 0 t.len, k + t.seqLenAt k ≤ t.len
  /-- A space is a sequence of its own. -/
  no_space : ∀ k ∈ t.steps 0 t.len, ∀ b < t.seqLenAt k, 0 < b → t.byte (k + b) ≠ 0x20

instance (t : Span) : Decidable (Unbroken t) :=
  decidable_of_iff (_ ∧ _) ⟨fun h => ⟨h.1, h.2⟩, fun h => ⟨h.step_le, h.no_space⟩⟩

/-- **A space begins a sequence.** -/
theorem Unbroken.strides_to (hp : Unbroken p) {a b k : Nat}
    (ha : Strides p.seqLenAt p.len 0 a) (h : Strides p.seqLenAt p.len a b) (hk : a ≤ k)
    (hlt : k < b) (hbyte : p.byte k = 0x20) : Strides p.seqLenAt p.len a k := by
  induction h with
  | refl => exact absurd hk (Nat.not_le.mpr hlt)
  | @step c hc h ih =>
    rcases Nat.lt_trichotomy k c with hbefore | rfl | hbehind
    · exact ih hbefore
    · exact h
    · -- inside the sequence there is no space
      have hmem : c ∈ p.steps 0 p.len := mem_positions_of_strides p.seqLenAt_pos (ha.trans h) hc
      have hother := hp.no_space c hmem (k - c) (by omega) (by omega)
      rw [Nat.add_sub_cancel' (Nat.le_of_lt hbehind)] at hother
      exact absurd hbyte hother

/-- The walk of a line goes from sequence to sequence. -/
theorem strides_walk (w start : Nat) : Strides p.seqLenAt p.len start (p.walk w start) := by
  induction w generalizing start with
  | zero => exact .refl
  | succ w ih =>
    rw [walk]
    split
    next hlt => exact (Strides.refl.step hlt).trans (ih _)
    next => exact .refl

/-- **A line ends between codepoints.** -/
theorem Unbroken.strides_breakLine (hp : Unbroken p) {start : Nat}
    (hstart : Strides p.seqLenAt p.len 0 start) :
    Strides p.seqLenAt p.len start (p.breakLine w start) := by
  have hwalk := strides_walk (p := p) w start
  simp only [breakLine]
  split
  next hin =>
    split
    next hbrk =>
      -- the line is broken behind a space
      have hback := backWhile_le (p := fun k => p.byte k != 0x20) start (p.walk w start)
      have hspace := not_of_lt_backWhile (p := fun k => p.byte k != 0x20) hbrk.1
      generalize backWhile (fun k => p.byte k != 0x20) start (p.walk w start) = brk at *
      have hbyte : p.byte (brk - 1) = 0x20 := by simpa using hspace
      have hto := hp.strides_to hstart hwalk (k := brk - 1) (by omega) (by omega) hbyte
      have hone : p.seqLenAt (brk - 1) = 1 := by
        rw [seqLenAt, hbyte]
        rfl
      have hnext := hto.step (by omega)
      rw [hone, Nat.sub_add_cancel (by omega)] at hnext
      exact hnext
    next => exact hwalk
  next => exact hwalk

/-- The next line begins between codepoints. -/
theorem strides_nextLine (start : Nat) :
    Strides p.seqLenAt p.len (p.breakLine w start) (p.nextLine w start) :=
  strides_scan_one (fun k hk => by
    have hbyte : p.byte k = 0x20 := beq_iff_eq.mp hk
    rw [seqLenAt, hbyte]
    rfl) _

/-- **The slices of such a cell**, up to a line, carry what is in front of it. -/
theorem Unbroken.flatMap_slices (hp : Unbroken p) (n : Nat) :
    Strides p.seqLenAt p.len 0 (p.lineStart w n 0) ∧
      (List.range n).flatMap (fun ln => (p.slice w ln).letters 0 (p.slice w ln).len)
        = p.letters 0 (p.lineStart w n 0) := by
  induction n with
  | zero => exact ⟨.refl, by rw [letters, steps, lineStart, positions_of_le (Nat.le_refl 0)]; rfl⟩
  | succ n ih =>
    obtain ⟨hto, hletters⟩ := ih
    have hline := hp.strides_breakLine (w := w) hto
    have hgap := strides_nextLine (p := p) (w := w) (p.lineStart w n 0)
    have hle := p.le_breakLine w (p.lineStart w n 0)
    have hnext := p.breakLine_le_nextLine w (p.lineStart w n 0)
    have hspaces : p.letters (p.breakLine w (p.lineStart w n 0)) (p.nextLine w (p.lineStart w n 0))
        = [] := p.letters_spaces fun k hk hlt =>
      byte_between p hk (by rw [lineStart_succ_back]; exact hlt)
    have hslice : (p.slice w n).letters 0 (p.slice w n).len
        = p.letters (p.lineStart w n 0) (p.breakLine w (p.lineStart w n 0)) := p.letters_sub hle
    rw [lineStart_succ_back]
    refine ⟨(hto.trans hline).trans hgap, ?_⟩
    rw [List.range_succ, List.flatMap_append, List.flatMap_singleton, hletters, hslice,
      p.letters_cut hto (hle.trans hnext), p.letters_cut hline hnext, hspaces, List.append_nil]

/-- A walk over its sequences ends in it. -/
theorem Unbroken.strides_le (hp : Unbroken p) {b : Nat} (h : Strides p.seqLenAt p.len 0 b) :
    b ≤ p.len := by
  cases h with
  | refl => exact Nat.zero_le _
  | step hc h => exact hp.step_le _ (mem_positions_of_strides p.seqLenAt_pos h hc)

/-- **The slices of such a cell carry it** when the walk over the lines leaves nothing. -/
theorem Unbroken.flatMap_slices_eq (hp : Unbroken p) {n : Nat}
    (hend : p.len ≤ p.lineStart w n 0) :
    (List.range n).flatMap (fun ln => (p.slice w ln).letters 0 (p.slice w ln).len)
      = p.letters 0 p.len := by
  obtain ⟨hto, hletters⟩ := hp.flatMap_slices (w := w) n
  rw [hletters, Nat.le_antisymm (hp.strides_le hto) hend]

end Thicket.Page
