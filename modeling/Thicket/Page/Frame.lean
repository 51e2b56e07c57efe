import Thicket.Page.Table

/-! # The frame of drawing

Whatever draws a run, a field or a table is made of a few primitives. A relation between renderers
that each of them keeps is kept by all that is drawn. -/

namespace Thicket.Page

open Thicket.Lcd Thicket.Page.Span

/-- **A relation that drawing keeps.** -/
structure Frame (o : Options) (R : PageRenderer → PageRenderer → Prop) : Prop where
  /-- Nothing done. -/
  refl : ∀ r, R r r
  /-- One piece after another. -/
  trans : ∀ {r s u}, R r s → R s u → R r u
  /-- Calls on the driver, under a visibility test made for this row or for one further up. -/
  issue : ∀ {r s : PageRenderer} (d : Drawing), r.rowVisible = true → R r s → R r (s.issue d)
  /-- A row or a gap, by its height. -/
  down : ∀ (a : Advance) (h : UInt16) (r : PageRenderer), h.toNat = a.height o → R r (r.down a h)
  /-- The pen, and whether the row is open. -/
  pen : ∀ (x : UInt16) (b : Bool) (r : PageRenderer), R r { r with x := x, rowOpen := b }
  /-- A codepoint is counted. -/
  note : ∀ (has : Bool) (cp : UInt32) (r : PageRenderer), R r (r.noteUnless has cp)

namespace Frame

variable {o : Options} {R : PageRenderer → PageRenderer → Prop} (h : Frame o R) (t : Span)
  (invert : Bool)

include h

/-- Steps that keep the relation, one after the other. -/
theorem run {ι : Type} {step : PageRenderer → ι → PageRenderer} (hstep : ∀ r i, R r (step r i))
    (r : PageRenderer) (is : List ι) : R r (Runs.run step r is) :=
  Runs.run_rel R h.refl h.trans hstep r is

/-! ## Runs -/

/-- Drawing under a visibility test. -/
theorem paint (d : Drawing) (r : PageRenderer) : R r (r.paint d) := by
  rw [PageRenderer.paint]
  split
  next hv => exact h.issue d hv (h.refl r)
  next => exact h.refl r

/-- A piece drawn and the pen moved over it. -/
theorem piece (d : Drawing) (w : UInt16) (r : PageRenderer) : R r ((r.paint d).penOver w) :=
  h.trans (h.paint d r) (h.pen _ _ _)

/-- A new line. -/
theorem newline (r : PageRenderer) : R r (r.newline o) := by
  refine h.trans (h.down (.row r.ownRowH) (r.rowH o) r ?_) (h.pen _ _ _)
  rw [Layout.rowH, Advance.height]
  split <;> rfl

/-- The break in front of a cell. -/
theorem wrapIfNeeded (w : Nat) (r : PageRenderer) : R r (r.wrapIfNeeded o w) := by
  rw [PageRenderer.wrapIfNeeded]
  split
  · exact h.newline r
  · exact h.refl r

/-- A codepoint of the row's face. -/
theorem emitGlyph (d : List UInt8 → Drawing) (r : PageRenderer) (k : Nat) :
    R r (r.emitGlyph o t d k) :=
  h.trans (h.note _ _ r) (h.piece _ _ _)

/-- One cell of a word that is broken at the margin. -/
theorem emitBrokenCell (r : PageRenderer) (k : Nat) : R r (r.emitBrokenCell o t invert k) :=
  h.trans (h.wrapIfNeeded _ r) (h.emitGlyph t _ _ k)

/-- The break in front of a word, or its spaces. -/
theorem breakOrLead (r : PageRenderer) (w : Word) : R r (r.breakOrLead o t invert w) := by
  rw [PageRenderer.breakOrLead]
  split_ifs
  · exact h.newline r
  · exact h.refl r
  · exact h.piece _ _ r

/-- A word. -/
theorem emitWord (r : PageRenderer) (w : Word) : R r (r.emitWord o t invert w) := by
  rw [PageRenderer.emitWord]
  split
  · exact h.run (h.emitBrokenCell t invert) r _
  · exact h.trans (h.breakOrLead t invert r w) (h.run (h.emitGlyph t _) _ _)

/-- Preformatted cells. -/
theorem emitLiteralFrom (ks : List Nat) (r : PageRenderer) :
    R r (PageRenderer.emitLiteralFrom o t invert ks r) := by
  induction ks generalizing r with
  | nil => exact h.refl r
  | cons k ks ih =>
    rw [PageRenderer.emitLiteralFrom]
    split
    · exact h.trans (h.paint _ r) (h.pen _ _ _)
    · exact h.trans (h.trans (h.note _ _ r) (h.piece _ _ _)) (ih _)

/-- **A run.** -/
theorem emitRun (r : PageRenderer) : R r (r.emitRun o t invert) := by
  rw [PageRenderer.emitRun]
  split
  · exact h.trans (h.pen _ _ r) (h.emitLiteralFrom t invert _ r.freshRow)
  · exact h.trans (h.pen _ _ r) (h.run (h.emitWord t invert) r.guardIndent _)

/-! ## Dividers and fields -/

/-- A divider. -/
theorem drawDivider (ch : UInt32) (r : PageRenderer) : R r (r.drawDivider o ch) := by
  rw [PageRenderer.drawDivider]
  split
  next hv => exact h.issue _ hv (h.note _ _ r)
  next => exact h.refl r

/-- The cells of a text field. -/
theorem fieldCells (f : Field) (s : Style) (n vk : Nat) (r : PageRenderer) :
    R r (PageRenderer.fieldCells f s n vk r) := by
  induction n generalizing vk r with
  | zero => exact h.refl r
  | succ n ih =>
    rw [PageRenderer.fieldCells]
    split
    · exact h.refl r
    · exact h.trans (h.piece _ _ r) (ih _ _)

/-- A text field. -/
theorem textField (f : Field) (s : Style) (r : PageRenderer) : R r (r.textField o f s) :=
  h.trans (h.paint _ r) (h.fieldCells f s _ _ _)

/-- A checkbox or a radio button with its label. -/
theorem boxField (f : Field) (r : PageRenderer) : R r (r.boxField o f) := by
  have hbox : R r (r.drawBox f) := by
    rw [PageRenderer.drawBox]
    split
    next hv => exact h.issue (s := r.freshRow) _ hv (h.pen _ _ r)
    next => exact h.refl r
  have hover : R r ((r.drawBox f).penOver (UInt16.ofNat fontAdvance)) := h.trans hbox (h.pen _ _ _)
  refine h.trans hover ?_
  rw [PageRenderer.boxField, PageRenderer.boxLabel]
  split
  · exact h.refl _
  · exact h.trans (h.emitRun _ _ _) (h.emitRun _ _ _)

/-! ## Line ends -/

/-- The rule under a heading. -/
theorem drawHeadRule (s : Style) (r : PageRenderer) : R r (r.drawHeadRule o s) := by
  rw [PageRenderer.drawHeadRule]
  split
  · exact h.paint _ r
  · exact h.refl r

/-- The rule, the new line and the gap under a heading. -/
theorem headGap (s : Style) (wasBig : Bool) (r : PageRenderer) :
    R r (((r.drawHeadRule o s).newline o).headGap s wasBig) := by
  have hline : R r ((r.drawHeadRule o s).newline o) :=
    h.trans (h.drawHeadRule s r) (h.newline _)
  refine h.trans hline ?_
  rw [PageRenderer.headGap]
  split
  · refine h.down (.headGap wasBig) _ _ ?_
    cases wasBig <;> rfl
  · exact h.refl _

/-! ## Tables -/

/-- A slice. -/
theorem emitSlice (row ln : Nat) (r : PageRenderer) (c : Nat) : R r (r.emitSlice o row ln c) := by
  rw [PageRenderer.emitSlice]
  split
  · exact h.refl r
  · exact h.trans (h.pen _ _ r) (h.emitRun _ _ (r.toColumn c))

/-- The slices of a line. -/
theorem emitSlices (row ln : Nat) (r : PageRenderer) : R r (r.emitSlices o row ln) :=
  h.run (h.emitSlice row ln) r _

/-- **A line of a table row**: its slices may add rows, so its gutters may be drawn for a row
further down, but not further up. -/
theorem tableLine (row : Nat) (r : PageRenderer) (ln : Nat) : R r (r.tableLine o row ln) := by
  refine h.trans ?_ (h.trans (h.down .tableLine _ (r.drawLine o row ln) rfl) (h.pen _ _ _))
  rw [PageRenderer.drawLine]
  split
  next hv => exact h.issue _ hv (h.emitSlices row ln r)
  next => exact h.refl r

/-- A row of a table. -/
theorem tableRow (r : PageRenderer) (row : Nat) : R r (r.tableRow o row) := by
  refine h.trans (h.run (h.tableLine (o := o) row) r (List.range (r.rowLines row))) ?_
  rw [PageRenderer.tableRow, PageRenderer.ruleHeader]
  split
  · exact h.paint _ _
  · exact h.refl _

/-- The rows of a table, and the rule that closes them. -/
theorem drawTable (r : PageRenderer) : R r (r.drawTable o) :=
  h.trans (h.run h.tableRow r _) (h.trans (h.paint _ _) (h.down .tableGap _ _ rfl))

end Frame

end Thicket.Page
