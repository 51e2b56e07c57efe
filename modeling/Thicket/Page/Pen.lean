import Thicket.Page.Frame

/-! # What emitting leaves alone

Emitting a run, a slice or a line of a table moves the pen and adds to the log: the style of the
row, the table and the window stay. -/

namespace Thicket.Page

open Thicket.Lcd Thicket.Page.Span

/-- **Only the pen moved**: `_y`, `_x`, `_row_open`, the log, and the counts. -/
structure OnlyPen (r s : PageRenderer) : Prop where
  /-- The rest of the layout. -/
  layout_eq : s.toLayout = { r.toLayout with y := s.y, x := s.x, rowOpen := s.rowOpen }
  /-- The table. -/
  table_eq : s.toTableState = r.toTableState
  /-- The window. -/
  window_eq : s.clip = r.clip ∧ s.scroll = r.scroll

/-- Nothing done. -/
theorem OnlyPen.refl (r : PageRenderer) : OnlyPen r r := ⟨rfl, rfl, rfl, rfl⟩

/-- One piece after another. -/
theorem OnlyPen.trans {r s t : PageRenderer} (h : OnlyPen r s) (k : OnlyPen s t) :
    OnlyPen r t := by
  refine ⟨?_, k.table_eq.trans h.table_eq, k.window_eq.1.trans h.window_eq.1,
    k.window_eq.2.trans h.window_eq.2⟩
  rw [k.layout_eq, h.layout_eq]

/-- The left edge stays. -/
theorem OnlyPen.leftEdge_eq {r s : PageRenderer} (h : OnlyPen r s) : s.leftEdge = r.leftEdge := by
  rw [h.layout_eq]
  rfl

/-- The face stays. -/
theorem OnlyPen.advance_eq {r s : PageRenderer} (h : OnlyPen r s) : s.advance = r.advance := by
  rw [h.layout_eq]
  rfl

/-- The height of the row stays. -/
theorem OnlyPen.rowH_eq {r s : PageRenderer} (h : OnlyPen r s) (o : Options) :
    s.rowH o = r.rowH o := by
  rw [h.layout_eq]
  rfl

/-- Whether the row is preformatted stays. -/
theorem OnlyPen.literal_eq {r s : PageRenderer} (h : OnlyPen r s) : s.literal = r.literal := by
  rw [h.layout_eq]

/-- Whether the window is looked at stays. -/
theorem OnlyPen.clip_eq {r s : PageRenderer} (h : OnlyPen r s) : s.clip = r.clip := h.window_eq.1

/-- The face of the row stays. -/
theorem OnlyPen.head_eq {r s : PageRenderer} (h : OnlyPen r s) : s.head = r.head := by
  rw [h.layout_eq]

/-- An advance as a width. -/
theorem toNat_advance (l : Layout) : (UInt16.ofNat l.advance).toNat = l.advance := by
  have hadv := l.advance_bounds
  rw [UInt16.toNat_ofNat']
  exact Nat.mod_eq_of_lt (by omega)

namespace PageRenderer

/-- What has been issued from one state to a later one. -/
def newOps (r s : PageRenderer) : List LcdOp := issued (s.log.drop r.log.length)

/-- What drawing issues. -/
theorem newOps_paint (d : Drawing) (r : PageRenderer) :
    newOps r (r.paint d) = if r.rowVisible then d r.toLayout r.screenY else [] := by
  rw [newOps, paint]
  split
  · rw [issue, List.drop_left, issued_draws]
  · rw [List.drop_length]
    rfl

variable {o : Options} (t : Span) (invert : Bool)

/-- **Drawing moves only the pen.** -/
theorem frame_onlyPen : Frame o OnlyPen where
  refl := .refl
  trans := .trans
  issue _ _ h := h.trans ⟨rfl, rfl, rfl, rfl⟩
  down _ _ _ _ := ⟨rfl, rfl, rfl, rfl⟩
  pen _ _ _ := ⟨rfl, rfl, rfl, rfl⟩
  note _ _ _ := ⟨rfl, rfl, rfl, rfl⟩

/-- Drawing under a visibility test. -/
theorem onlyPen_paint (d : Drawing) (r : PageRenderer) : OnlyPen r (r.paint d) := by
  rw [paint]
  split
  · exact ⟨rfl, rfl, rfl, rfl⟩
  · exact .refl r

/-- A new line. -/
theorem onlyPen_newline (r : PageRenderer) : OnlyPen r (r.newline o) := frame_onlyPen.newline r

/-- A piece drawn and the pen moved over it. -/
theorem onlyPen_piece (d : Drawing) (w : UInt16) (r : PageRenderer) :
    OnlyPen r ((r.paint d).penOver w) :=
  (onlyPen_paint d r).trans ⟨rfl, rfl, rfl, rfl⟩

/-- A row stays visible or not while something is drawn on it. -/
theorem rowVisible_paint (d : Drawing) (r : PageRenderer) :
    (r.paint d).rowVisible = r.rowVisible := by
  rw [paint]
  split <;> rfl

/-- The pen behind a cell of the body face that ends within the margin. -/
theorem penOver_cell_x (d : Drawing) {r : PageRenderer} (hin : ¬ right < r.x.toNat + fontAdvance) :
    ((r.paint d).penOver (UInt16.ofNat fontAdvance)).x.toNat = r.x.toNat + fontAdvance := by
  have hright : right = 398 := rfl
  have hsix : fontAdvance = 6 := rfl
  have hover : ((r.paint d).penOver (UInt16.ofNat fontAdvance)).x
      = r.x + UInt16.ofNat fontAdvance := by simp [penOver]
  rw [hover, UInt16.toNat_add, hsix, UInt16.toNat_ofNat']
  omega

/-- So behind a preformatted cell. -/
theorem emitLiteralCell_x {r : PageRenderer} (k : Nat)
    (hin : ¬ right < r.x.toNat + fontAdvance) :
    (r.emitLiteralCell o t invert k).x.toNat = r.x.toNat + fontAdvance :=
  penOver_cell_x (r := r.noteUnless _ _) _ hin

/-- A codepoint of the row's face. -/
theorem onlyPen_emitGlyph (d : List UInt8 → Drawing) (r : PageRenderer) (k : Nat) :
    OnlyPen r (r.emitGlyph o t d k) :=
  frame_onlyPen.emitGlyph t d r k

/-- The break in front of a cell. -/
theorem onlyPen_wrapIfNeeded (w : Nat) (r : PageRenderer) : OnlyPen r (r.wrapIfNeeded o w) :=
  frame_onlyPen.wrapIfNeeded w r

/-- The break in front of a word. -/
theorem onlyPen_breakOrLead (r : PageRenderer) (w : Word) :
    OnlyPen r (r.breakOrLead o t invert w) :=
  frame_onlyPen.breakOrLead t invert r w

/-- A word. -/
theorem onlyPen_emitWord (r : PageRenderer) (w : Word) : OnlyPen r (r.emitWord o t invert w) :=
  frame_onlyPen.emitWord t invert r w

/-- The layout after a codepoint of the row's face. -/
theorem toLayout_emitGlyph (d : List UInt8 → Drawing) (r : PageRenderer) (k : Nat) :
    (r.emitGlyph o t d k).toLayout
      = { r.toLayout with x := r.x + UInt16.ofNat r.advance, rowOpen := true } := by
  simp [emitGlyph, penOver, noteUnless]

/-- The pen after a codepoint. -/
theorem emitGlyph_pen (d : List UInt8 → Drawing) (r : PageRenderer) (k : Nat) :
    (r.emitGlyph o t d k).x = r.x + UInt16.ofNat r.advance ∧ (r.emitGlyph o t d k).y = r.y := by
  rw [toLayout_emitGlyph]
  exact ⟨rfl, rfl⟩

/-- **The pen after the cells of a word.** -/
theorem emitCells_pen (ks : List Nat) (r : PageRenderer) :
    (Runs.run (emitCell o t invert) r ks).x = r.x + UInt16.ofNat (ks.length * r.advance) ∧
      (Runs.run (emitCell o t invert) r ks).y = r.y := by
  induction ks generalizing r with
  | nil => simp
  | cons k ks ih =>
    have hcell := emitGlyph_pen (o := o) t (cellOps o invert) r k
    have hadv : (r.emitCell o t invert k).advance = r.advance :=
      (onlyPen_emitGlyph t (cellOps o invert) r k).advance_eq
    obtain ⟨hx, hy⟩ := ih (r.emitCell o t invert k)
    rw [Runs.run_cons]
    refine ⟨?_, hy.trans hcell.2⟩
    rw [hx, hadv, emitCell, hcell.1, List.length_cons, Nat.succ_mul, Nat.add_comm, UInt16.ofNat_add,
      UInt16.add_assoc]

/-- Preformatted cells stay on their row. -/
theorem emitLiteralFrom_y (ks : List Nat) (r : PageRenderer) :
    (emitLiteralFrom o t invert ks r).y = r.y := by
  induction ks generalizing r with
  | nil => rfl
  | cons k ks ih =>
    rw [emitLiteralFrom]
    split
    · simp
    · rw [ih]
      simp [emitLiteralCell, penOver, noteUnless]

/-- **A run.** -/
theorem onlyPen_emitRun (r : PageRenderer) : OnlyPen r (r.emitRun o t invert) :=
  frame_onlyPen.emitRun t invert r

/-- A divider. -/
theorem onlyPen_drawDivider (ch : UInt32) (r : PageRenderer) :
    OnlyPen r (r.drawDivider o ch) :=
  frame_onlyPen.drawDivider ch r

/-- A text field. -/
theorem onlyPen_textField (f : Field) (s : Style) (r : PageRenderer) :
    OnlyPen r (r.textField o f s) :=
  frame_onlyPen.textField f s r

/-- A checkbox or a radio button with its label. -/
theorem onlyPen_boxField (f : Field) (r : PageRenderer) : OnlyPen r (r.boxField o f) :=
  frame_onlyPen.boxField f r

/-- The rule, the new line and the gap under a heading. -/
theorem onlyPen_headGap (s : Style) (wasBig : Bool) (r : PageRenderer) :
    OnlyPen r (((r.drawHeadRule o s).newline o).headGap s wasBig) :=
  frame_onlyPen.headGap s wasBig r

/-- A slice. -/
theorem onlyPen_emitSlice (row ln : Nat) (r : PageRenderer) (c : Nat) :
    OnlyPen r (r.emitSlice o row ln c) :=
  frame_onlyPen.emitSlice row ln r c

/-- The slices of a line. -/
theorem onlyPen_emitSlices (row ln : Nat) (r : PageRenderer) :
    OnlyPen r (r.emitSlices o row ln) :=
  frame_onlyPen.emitSlices row ln r

/-- A line of a table row, if it is visible. -/
theorem onlyPen_drawLine (row ln : Nat) (r : PageRenderer) :
    OnlyPen r (r.drawLine o row ln) := by
  rw [drawLine]
  split
  · exact (onlyPen_emitSlices row ln r).trans ⟨rfl, rfl, rfl, rfl⟩
  · exact .refl r

/-- A line of a table row. -/
theorem onlyPen_tableLine (row : Nat) (r : PageRenderer) (ln : Nat) :
    OnlyPen r (r.tableLine o row ln) :=
  frame_onlyPen.tableLine row r ln

/-- A row of a table. -/
theorem onlyPen_tableRow (r : PageRenderer) (row : Nat) : OnlyPen r (r.tableRow o row) :=
  frame_onlyPen.tableRow r row

end PageRenderer

end Thicket.Page
