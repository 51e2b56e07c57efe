import Thicket.Page.Holes
import Thicket.Page.Paired

/-! # The page does not depend on the window

Two renderers whose rows are alike but for where they are, and whose tables are the same, stay so
whatever is drawn. So what a page is laid out as does not depend on the scroll offset. -/

namespace Thicket.Page

open Thicket.Lcd Thicket.Page.Span PageRenderer

/-- **Alike but for the window**: the layouts agree on all but `_y`, and so do the tables. -/
structure Flat (r s : PageRenderer) : Prop where
  /-- The rows. -/
  layout_eq : s.toLayout = { r.toLayout with y := s.y }
  /-- The tables. -/
  table_eq : s.toTableState = r.toTableState

variable {o : Options} {r s : PageRenderer}

/-- Whatever changes neither. -/
theorem Flat.of_same {r' s' : PageRenderer} (h : Flat r s) (hr : r'.toLayout = r.toLayout)
    (hs : s'.toLayout = s.toLayout) (hr' : r'.toTableState = r.toTableState)
    (hs' : s'.toTableState = s.toTableState) : Flat r' s' :=
  ⟨by rw [hs, hr, h.layout_eq], by rw [hs', hr', h.table_eq]⟩

/-- Drawing leaves the table alone. -/
theorem toTableState_paint (d : Drawing) (r : PageRenderer) :
    (r.paint d).toTableState = r.toTableState :=
  (onlyPen_paint d r).table_eq

/-- **What draws on both keeps them alike.** -/
theorem paired_flat : Paired (fun _ => True) Flat where
  clip _ _ := trivial
  literal _ _ _ := trivial
  broken _ _ _ := trivial
  lead _ _ _ := trivial
  cell _ _ _ := trivial
  divider _ := trivial
  bar _ _ _ := trivial
  fieldCell _ _ _ := trivial
  box _ := trivial
  rule _ _ := trivial
  sameRow h := by rw [SameRow, h.layout_eq]
  paint h _ := h.of_same (toLayout_paint _ _) (toLayout_paint _ _) (toTableState_paint _ _)
    (toTableState_paint _ _)
  down {r s} h _ w := ⟨by
    show ({ s.toLayout with y := s.y + w } : Layout) = { r.toLayout with y := s.y + w }
    rw [h.layout_eq], h.table_eq⟩
  edit {r s f} h hf := ⟨by
    show f s.toLayout = { f r.toLayout with y := (f s.toLayout).y }
    rw [h.layout_eq, hf.row_eq], h.table_eq⟩
  note h _ _ := h.of_same rfl rfl rfl rfl
  noteVisible h _ _ := by
    refine h.of_same ?_ ?_ ?_ ?_
    all_goals split <;> rfl

/-! ## Tables -/

/-- A line of a table leaves the pen at the left edge of a closed row. -/
theorem toLayout_tableLine (row ln : Nat) (r : PageRenderer) : ∃ y,
    (r.tableLine o row ln).toLayout
      = { r.toLayout with y := y, x := UInt16.ofNat r.leftEdge, rowOpen := false } := by
  have hdraw : OnlyPen r (r.drawLine o row ln) := onlyPen_drawLine row ln r
  refine ⟨(r.drawLine o row ln).y + o.lineH, ?_⟩
  show ({ (r.drawLine o row ln).toLayout with
    y := (r.drawLine o row ln).y + o.lineH
    x := UInt16.ofNat (r.drawLine o row ln).leftEdge, rowOpen := false } : Layout) = _
  rw [hdraw.leftEdge_eq, hdraw.layout_eq]

/-- A line of a table. -/
theorem Flat.tableLine (h : Flat r s) (row ln : Nat) :
    Flat (r.tableLine o row ln) (s.tableLine o row ln) := by
  have hedge : s.leftEdge = r.leftEdge := (paired_flat.sameRow h).leftEdge_eq
  obtain ⟨y, hy⟩ := toLayout_tableLine (o := o) row ln r
  obtain ⟨y', hy'⟩ := toLayout_tableLine (o := o) row ln s
  refine ⟨?_, ?_⟩
  · rw [hy, hy', hedge, h.layout_eq]
  · rw [(onlyPen_tableLine row s ln).table_eq, (onlyPen_tableLine row r ln).table_eq, h.table_eq]

/-- A row of a table. -/
theorem Flat.tableRow (h : Flat r s) (row : Nat) :
    Flat (r.tableRow o row) (s.tableRow o row) := by
  have hlines : Flat (Runs.run (PageRenderer.tableLine o row) r (List.range (r.rowLines row)))
      (Runs.run (PageRenderer.tableLine o row) s (List.range (r.rowLines row))) :=
    Runs.run_simulation Flat (fun _ _ ln h => h.tableLine row ln) h _
  rw [PageRenderer.tableRow, PageRenderer.tableRow, h.table_eq, ruleHeader, ruleHeader]
  split
  · exact paired_flat.paint hlines trivial
  · exact hlines

/-- There is as much room for the columns. -/
theorem Flat.tableAvail_eq (h : Flat r s) : tableAvail s.toLayout = tableAvail r.toLayout := by
  rw [tableAvail, tableAvail, (paired_flat.sameRow h).leftEdge_eq]

/-- The columns are fitted alike. -/
theorem Flat.fitTable (h : Flat r s) : Flat r.fitTable s.fitTable := by
  refine ⟨h.layout_eq, ?_⟩
  show s.fit (tableAvail s.toLayout) = r.fit (tableAvail r.toLayout)
  rw [h.tableAvail_eq, h.table_eq]

/-- A table. -/
theorem Flat.tableFlush (h : Flat r s) : Flat (r.tableFlush o) (s.tableFlush o) := by
  have hfit := h.fitTable
  rw [PageRenderer.tableFlush, PageRenderer.tableFlush, h.tableAvail_eq, h.table_eq]
  split_ifs
  · exact h
  · exact hfit
  · rw [drawTable, drawTable, hfit.table_eq]
    exact paired_flat.down (paired_flat.paint
      (Runs.run_simulation Flat (fun _ _ row h => h.tableRow row) hfit _) trivial) _ _

/-! ## The machine -/

/-- **Every callback keeps them alike.** -/
theorem Flat.step (h : Flat r s) (c : Callback) : Flat (r.step o c) (s.step o c) := by
  cases c with
  | blankLine =>
    -- both skip the blank, or both move down: the flag is not the height
    have hpending : s.blankPending = r.blankPending := by rw [h.layout_eq]
    show Flat (r.blankLine o) (s.blankLine o)
    rw [PageRenderer.blankLine, PageRenderer.blankLine, hpending]
    split
    · exact h
    · exact (paired_flat.edit (f := fun l => { l with blankPending := true })
        (paired_flat.down h .blankGap o.lineH) ⟨fun _ _ _ => rfl, fun _ _ => rfl, fun _ _ => rfl⟩)
  | text t st => exact paired_flat.onText t h st
  | link label target st =>
    exact (paired_flat.emitHere label (paired_flat.startRow h st)).of_same rfl rfl rfl rfl
  | divider ch st => exact paired_flat.onDivider h ch st
  | field f st => exact paired_flat.onField h f st
  | anchor => exact h
  | lineEnd st => exact paired_flat.onLineEnd h (fun _ => by rw [h.layout_eq]) st
  | tableBegin st =>
    refine ⟨(paired_flat.setDepth h st).layout_eq, ?_⟩
    show s.toTableState.clear = r.toTableState.clear
    rw [h.table_eq]
  | tableRow row st =>
    refine ⟨(paired_flat.setDepth h st).layout_eq, ?_⟩
    show s.toTableState.addRow row = r.toTableState.addRow row
    rw [h.table_eq]
  | tableEnd st => exact (paired_flat.setDepth h st).tableFlush
  | image alt url st => exact paired_flat.onImage h alt url st
  | part url st =>
    have hlink := paired_flat.startRow (paired_flat.emitHere (o := o)
      (.ofList [0x5B, 0x2B, 0x5D, 0x20]) (paired_flat.setDepth h st)) st
    exact (paired_flat.emitHere url hlink).of_same rfl rfl rfl rfl

/-- Passes at two offsets begin alike. -/
theorem flat_begin (a b : UInt16) (r : PageRenderer) : Flat (r.begin a) (r.begin b) := ⟨rfl, rfl⟩

/-- So does the pass that shows the whole page. -/
theorem flat_beginWhole (a : UInt16) (r : PageRenderer) : Flat (r.begin a) r.beginWhole :=
  ⟨rfl, rfl⟩

end Thicket.Page
