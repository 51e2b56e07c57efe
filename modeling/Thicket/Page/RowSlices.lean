import Thicket.Page.CellLines
import Thicket.Page.Placed

/-! # What is drawn of a row

`table_flush` hands slices of the cells to `emit_run`, line by line and column by column. The calls
of a row are traced, each with the renderer that it is made on: all glyphs of the row are theirs,
and the slices of a cell follow one another through it, to its end unless it needs more than 32
lines. -/

namespace Thicket.Page

open Thicket.Lcd Thicket.Page.Span PageRenderer

/-- What a call of `emit_run` is given: `emit_run(p + from, to - from, false)`. -/
structure SlicePart where
  /-- `ln`. -/
  line : Nat
  /-- `c`. -/
  col : Nat
  /-- `from`. -/
  start : Nat
  /-- The bytes that are handed over. -/
  slice : Span

/-- A call of `emit_run`, and the renderer that it is made on. -/
structure SliceCall extends SlicePart where
  /-- The renderer, its pen at the begin of the column. -/
  pen : PageRenderer

/-- The glyphs that a call draws. -/
def SliceCall.glyphs (o : Options) (d : SliceCall) : List LcdOp :=
  glyphsOf (newOps d.pen (d.pen.emitRun o d.slice false))

/-- What a line draws of the cell in a column, if there is anything of the cell on it. -/
def TableState.slicePart (t : TableState) (row ln c : Nat) : List SlicePart :=
  if ((t.cell row c).slice (t.colW c) ln).len = 0 then []
  else [{ line := ln, col := c, start := (t.cell row c).lineStart (t.colW c) ln 0
          slice := (t.cell row c).slice (t.colW c) ln }]

namespace PageRenderer

variable (o : Options)

/-! ## The trace -/

/-- The call for a cell on a line, if there is one. -/
def sliceCall (row ln : Nat) (r : PageRenderer) (c : Nat) : List SliceCall :=
  (r.slicePart row ln c).map fun d => { d with pen := r.toColumn c }

/-- The calls for a line, if it is visible. -/
def lineCalls (row : Nat) (r : PageRenderer) (ln : Nat) : List SliceCall :=
  if r.rowVisible then
    Runs.outputs (emitSlice o row ln) (sliceCall row ln) r (List.range r.tableCols)
  else []

/-- **The calls of `emit_run` for a row**, in the order they are made. -/
def rowCalls (r : PageRenderer) (row : Nat) : List SliceCall :=
  Runs.outputs (tableLine o row) (lineCalls o row) r (List.range (r.rowLines row))

/-- What these calls are given. -/
def rowParts (r : PageRenderer) (row : Nat) : List SlicePart :=
  (r.rowCalls o row).map SliceCall.toSlicePart

/-- What they are given of one cell. -/
def cellParts (r : PageRenderer) (row c : Nat) : List SlicePart :=
  (r.rowParts o row).filter fun d => d.col = c

/-- Whether a line of a row is in the window. -/
def lineVisible (r : PageRenderer) (row ln : Nat) : Bool :=
  (Runs.run (tableLine o row) r (List.range ln)).rowVisible

/-- The renderer with all that is laid out in the window. -/
def seesAll (r : PageRenderer) : PageRenderer := { r with clip := false }

end PageRenderer

/-! ## What is promised -/

variable (o : Options)

/-- **The calls are what a row draws.** -/
structure RowDrawn (r : PageRenderer) (row : Nat) : Prop where
  /-- The glyphs of the row are those of the calls, in their order. -/
  glyphs : glyphsOf (newOps r (r.tableRow o row)) = (r.rowCalls o row).flatMap (SliceCall.glyphs o)
  /-- In any window the calls are those for the lines in it. -/
  inWindow : r.rowParts o row
    = (r.seesAll.rowParts o row).filter fun d => r.lineVisible o row d.line

/-- **A cell is drawn as a whole**: its slices, on lines of the row, follow one another, and every
byte that is not a space is in one of them. -/
structure CellDrawn (r : PageRenderer) (row c : Nat) : Prop where
  /-- They are parts of the cell. -/
  part : ∀ d ∈ r.cellParts o row c, d.slice = (r.cell row c).sub d.start d.slice.len
  /-- They are on the lines that were counted. -/
  line_lt : ∀ d ∈ r.cellParts o row c, d.line < r.rowLines row
  /-- Each is on a later line than the one before, and begins where that ends or behind it. -/
  inOrder : (r.cellParts o row c).Pairwise fun d e =>
    d.line < e.line ∧ d.start + d.slice.len ≤ e.start
  /-- Nothing but spaces is left out. -/
  covered : ∀ k < (r.cell row c).len, (r.cell row c).byte k ≠ 0x20 →
    ∃ d ∈ r.cellParts o row c, d.start ≤ k ∧ k < d.start + d.slice.len

variable {o} {r s : PageRenderer}

/-! ## What the calls are given -/

/-- The parts of a line. -/
def TableState.lineParts (t : TableState) (row ln : Nat) : List SlicePart :=
  (List.range t.tableCols).flatMap (t.slicePart row ln)

/-- A slice is what is between the begin and the end of its line. -/
theorem mem_slicePart {t : TableState} {row ln c : Nat} {d : SlicePart} :
    d ∈ t.slicePart row ln c ↔
      ((t.cell row c).slice (t.colW c) ln).len ≠ 0 ∧
        d = { line := ln, col := c, start := (t.cell row c).lineStart (t.colW c) ln 0
              slice := (t.cell row c).slice (t.colW c) ln } := by
  rw [TableState.slicePart]
  split
  next h => exact iff_of_false List.not_mem_nil fun hd => hd.1 h
  next h => rw [List.mem_singleton, and_iff_right h]

/-- Where a slice ends. -/
theorem start_add_len (p : Span) (w ln : Nat) :
    p.lineStart w ln 0 + (p.slice w ln).len = p.lineEnd w ln :=
  Nat.add_sub_cancel' (p.le_breakLine w (p.lineStart w ln 0))

/-- What the calls for some columns of a line are given: the pen may move, the table stays. -/
theorem parts_outputs_sliceCall (row ln : Nat) (r : PageRenderer) (cs : List Nat) :
    (Runs.outputs (emitSlice o row ln) (sliceCall row ln) r cs).map SliceCall.toSlicePart
      = cs.flatMap (r.slicePart row ln) := by
  induction cs generalizing r with
  | nil => rfl
  | cons c cs ih =>
    have htable := (onlyPen_emitSlice (o := o) row ln r c).table_eq
    have hcall : (sliceCall row ln r c).map SliceCall.toSlicePart = r.slicePart row ln c := by
      rw [sliceCall, List.map_map]
      exact List.map_id _
    rw [Runs.outputs_cons, List.map_append, ih, htable, hcall, List.flatMap_cons]

/-- What the calls for a line are given. -/
theorem parts_lineCalls (row ln : Nat) (r : PageRenderer) :
    (lineCalls o row r ln).map SliceCall.toSlicePart
      = if r.rowVisible then r.lineParts row ln else [] := by
  rw [lineCalls]
  split
  · exact parts_outputs_sliceCall row ln r _
  · rfl

/-- **What the calls for a row are given**: each line in the window has its parts. -/
theorem rowParts_eq (r : PageRenderer) (row : Nat) :
    r.rowParts o row = (List.range (r.rowLines row)).flatMap fun ln =>
      if r.lineVisible o row ln then r.lineParts row ln else [] := by
  have hlines (n : Nat) : (Runs.outputs (tableLine o row) (lineCalls o row) r
      (List.range n)).map SliceCall.toSlicePart = (List.range n).flatMap fun ln =>
        if r.lineVisible o row ln then r.lineParts row ln else [] := by
    induction n with
    | zero => rfl
    | succ n ih =>
      have hpen : OnlyPen r (Runs.run (tableLine o row) r (List.range n)) :=
        frame_onlyPen.run (o := o) (onlyPen_tableLine row) r _
      rw [List.range_succ, Runs.outputs_append, List.map_append, ih, List.flatMap_append,
        Runs.outputs_cons, Runs.outputs_nil, List.append_nil, parts_lineCalls, hpen.table_eq,
        List.flatMap_singleton, PageRenderer.lineVisible]
  exact hlines _

/-- Where everything is in the window, so is every line. -/
theorem lineVisible_seesAll (r : PageRenderer) (row ln : Nat) :
    r.seesAll.lineVisible o row ln = true := by
  have hpen : OnlyPen r.seesAll (Runs.run (tableLine o row) r.seesAll (List.range ln)) :=
    frame_onlyPen.run (o := o) (onlyPen_tableLine row) r.seesAll _
  have hclip : (Runs.run (tableLine o row) r.seesAll (List.range ln)).clip = false := hpen.clip_eq
  simp [PageRenderer.lineVisible, rowVisible, hclip]

/-- So every line has its parts. -/
theorem rowParts_seesAll (r : PageRenderer) (row : Nat) :
    r.seesAll.rowParts o row = (List.range (r.rowLines row)).flatMap (r.lineParts row) := by
  rw [rowParts_eq]
  exact List.flatMap_congr fun ln _ => by
    rw [lineVisible_seesAll, if_pos rfl]
    rfl

/-- In a window, the parts are those of the lines in it. -/
theorem rowParts_inWindow (r : PageRenderer) (row : Nat) : r.rowParts o row
    = (r.seesAll.rowParts o row).filter fun d => r.lineVisible o row d.line := by
  have hline : ∀ ln, ∀ d ∈ r.lineParts row ln, d.line = ln := by
    intro ln d hd
    obtain ⟨c, -, hd⟩ := List.mem_flatMap.mp hd
    rw [(mem_slicePart.mp hd).2]
  rw [rowParts_eq, rowParts_seesAll, List.filter_flatMap]
  refine List.flatMap_congr fun ln _ => ?_
  split
  next hv => exact (List.filter_eq_self.mpr fun d hd => by rw [hline ln d hd, hv]).symm
  next hv => exact (List.filter_eq_nil_iff.mpr fun d hd => by rw [hline ln d hd]; exact hv).symm

/-! ## What the calls draw -/

/-- Between two states, the glyphs of some calls have been drawn. -/
def Emits (o : Options) (r s : PageRenderer) (cs : List SliceCall) : Prop :=
  ∃ m, s.log = r.log ++ m ∧ glyphsOf (issued m) = cs.flatMap (SliceCall.glyphs o)

/-- No glyph. -/
theorem Emits.of_none {m : List Entry} (hlog : s.log = r.log ++ m) (hm : glyphsOf (issued m) = []) :
    Emits o r s [] :=
  ⟨m, hlog, hm⟩

/-- Nothing done. -/
theorem Emits.refl (r : PageRenderer) : Emits o r r [] :=
  .of_none (List.append_nil _).symm rfl

/-- One piece after another. -/
theorem Emits.trans {u : PageRenderer} {cs ds : List SliceCall} (h : Emits o r s cs)
    (k : Emits o s u ds) : Emits o r u (cs ++ ds) := by
  obtain ⟨m, hm, hcs⟩ := h
  obtain ⟨m', hm', hds⟩ := k
  refine ⟨m ++ m', by rw [hm', hm, List.append_assoc], ?_⟩
  rw [issued_append, glyphsOf_append, hcs, hds, List.flatMap_append]

/-- Steps that make their calls, one after the other. -/
theorem Emits.run {step : PageRenderer → Nat → PageRenderer}
    {out : PageRenderer → Nat → List SliceCall}
    (h : ∀ r k, Emits o r (step r k) (out r k)) (r : PageRenderer) (ks : List Nat) :
    Emits o r (Runs.run step r ks) (Runs.outputs step out r ks) := by
  induction ks generalizing r with
  | nil => exact .refl r
  | cons k ks ih => exact (h r k).trans (ih (step r k))

/-- Calls on the driver that are no glyphs. -/
theorem Emits.issue (d : Drawing) (r : PageRenderer)
    (hd : ∀ op ∈ d r.toLayout r.screenY, glyphIn op = none) : Emits o r (r.issue d) [] :=
  .of_none rfl (by rw [issued_draws]; exact glyphsOf_eq_nil hd)

/-- **The slice of a cell** is drawn by its call. -/
theorem emits_emitSlice (row ln : Nat) (r : PageRenderer) (c : Nat) :
    Emits o r (r.emitSlice o row ln c) (sliceCall row ln r c) := by
  rw [emitSlice, sliceCall, TableState.slicePart]
  split
  · exact .refl r
  · obtain ⟨m, hm⟩ := (frame_descends.emitRun (o := o) ((r.cell row c).slice (r.colW c) ln) false
      (r.toColumn c)).log_isPrefix
    refine ⟨m, hm.symm, ?_⟩
    rw [List.map_singleton, List.flatMap_singleton, SliceCall.glyphs, newOps, ← hm, List.drop_left]

/-- A line of a row: its slices, and its gutters, which are no glyphs. -/
theorem emits_tableLine (row : Nat) (r : PageRenderer) (ln : Nat) :
    Emits o r (r.tableLine o row ln) (lineCalls o row r ln) := by
  have hdraw : Emits o r (r.drawLine o row ln) (lineCalls o row r ln) := by
    rw [drawLine, lineCalls]
    split
    · have hslices : Emits o r (r.emitSlices o row ln) _ := .run (emits_emitSlice row ln) r _
      have hgutters := hslices.trans (.issue (gutterOps o r.toTableState) _ fun op hop => by
        obtain ⟨c, -, rfl⟩ := List.mem_map.mp hop
        rfl)
      rwa [List.append_nil] at hgutters
    · exact .refl r
  have hdown := hdraw.trans (.of_none (s := r.tableLine o row ln) rfl rfl)
  rwa [List.append_nil] at hdown

/-- **A row draws the glyphs of its calls**, and no others. -/
theorem emits_tableRow (r : PageRenderer) (row : Nat) :
    Emits o r (r.tableRow o row) (r.rowCalls o row) := by
  have hlines : Emits o r (Runs.run (tableLine o row) r (List.range (r.rowLines row)))
      (r.rowCalls o row) := .run (emits_tableLine row) r _
  have hrule (s : PageRenderer) : Emits o s (s.ruleHeader row) [] := by
    rw [ruleHeader, paint]
    split_ifs
    · exact .issue headerOps s fun op hop => by rw [List.mem_singleton.mp hop]; rfl
    · exact .refl s
    · exact .refl s
  have hrow := hlines.trans (hrule _)
  rwa [List.append_nil] at hrow

/-- **The calls of a row are what it draws.** -/
theorem rowDrawn (o : Options) (r : PageRenderer) (row : Nat) : RowDrawn o r row := by
  refine ⟨?_, rowParts_inWindow r row⟩
  obtain ⟨m, hm, hglyphs⟩ := emits_tableRow (o := o) r row
  rw [newOps, hm, List.drop_left]
  exact hglyphs

/-! ## The slices of a cell -/

/-- One column of a line. -/
theorem filter_lineParts (t : TableState) (row ln : Nat) {c : Nat} (hc : c < t.tableCols) :
    (t.lineParts row ln).filter (fun d => d.col = c) = t.slicePart row ln c := by
  have hone (k : Nat) : (t.slicePart row ln k).filter (fun d => d.col = c)
      = if k = c then t.slicePart row ln c else [] := by
    have hcol : ∀ d ∈ t.slicePart row ln k, d.col = k := fun d hd => by rw [(mem_slicePart.mp hd).2]
    split
    next hk => exact hk ▸ List.filter_eq_self.mpr fun d hd => by simp [hcol d hd]
    next hk => exact List.filter_eq_nil_iff.mpr fun d hd => by simp [hcol d hd, hk]
  have hrange (n : Nat) :
      (List.range n).flatMap (fun k => if k = c then t.slicePart row ln c else [])
        = if c < n then t.slicePart row ln c else [] := by
    induction n with
    | zero => rfl
    | succ n ih =>
      rw [List.range_succ, List.flatMap_append, ih, List.flatMap_singleton]
      rcases Nat.lt_trichotomy n c with hlt | rfl | hgt
      · rw [if_neg (by omega), if_neg (by omega), if_neg (by omega), List.append_nil]
      · rw [if_neg (Nat.lt_irrefl n), if_pos rfl, if_pos (Nat.lt_succ_self n), List.nil_append]
      · rw [if_pos hgt, if_neg (by omega), if_pos (by omega), List.append_nil]
  rw [TableState.lineParts, List.filter_flatMap]
  simp only [hone]
  rw [hrange, if_pos hc]

/-- **What the calls for a cell are given**, where everything is in the window: a slice on each of
the lines that the cell reaches. -/
theorem cellParts_eq (r : PageRenderer) (row : Nat) {c : Nat} (hc : c < r.tableCols) :
    r.seesAll.cellParts o row c
      = (List.range (r.rowLines row)).flatMap fun ln => r.slicePart row ln c := by
  rw [cellParts, rowParts_seesAll, List.filter_flatMap]
  exact List.flatMap_congr fun ln _ => filter_lineParts r.toTableState row ln hc

/-- The slices of a cell follow one another. -/
theorem pairwise_cellParts (r : PageRenderer) (row : Nat) {c : Nat} (hc : c < r.tableCols) :
    (r.seesAll.cellParts o row c).Pairwise fun d e =>
      d.line < e.line ∧ d.start + d.slice.len ≤ e.start := by
  rw [cellParts_eq r row hc, List.pairwise_flatMap]
  refine ⟨fun ln _ => ?_, List.pairwise_lt_range.imp fun {i j} hij d hd e he => ?_⟩
  · rw [TableState.slicePart]
    split
    · exact .nil
    · exact List.pairwise_singleton _ _
  · rw [(mem_slicePart.mp hd).2, (mem_slicePart.mp he).2]
    refine ⟨hij, ?_⟩
    -- the next line begins behind this one, and a later line not before the next
    calc (r.cell row c).lineStart (r.colW c) i 0 + ((r.cell row c).slice (r.colW c) i).len
        = (r.cell row c).lineEnd (r.colW c) i := start_add_len _ _ _
      _ ≤ (r.cell row c).lineStart (r.colW c) (i + 1) 0 := by
          rw [lineStart_succ_back]
          exact (r.cell row c).breakLine_le_nextLine _ _
      _ ≤ (r.cell row c).lineStart (r.colW c) j 0 := (r.cell row c).lineStart_mono _ hij 0

/-- **A cell is drawn as a whole exactly when its lines leave nothing.** -/
theorem cellDrawn_iff {row c : Nat} (hc : c < r.tableCols) :
    CellDrawn o r.seesAll row c ↔ Unclipped (r.cell row c) (r.colW c) (r.rowLines row) := by
  have hmem {d : SlicePart} : d ∈ r.seesAll.cellParts o row c ↔
      ∃ ln < r.rowLines row, d ∈ r.slicePart row ln c := by
    rw [cellParts_eq r row hc, List.mem_flatMap]
    simp only [List.mem_range]
  -- a slice that holds a byte is handed over
  have hcovers (k : Nat) : (∃ d ∈ r.seesAll.cellParts o row c, d.start ≤ k ∧
      k < d.start + d.slice.len) ↔ ∃ ln < r.rowLines row,
        (r.cell row c).lineStart (r.colW c) ln 0 ≤ k ∧
          k < (r.cell row c).lineEnd (r.colW c) ln := by
    constructor
    · rintro ⟨d, hd, hle, hlt⟩
      obtain ⟨ln, hln, hd⟩ := hmem.mp hd
      rw [(mem_slicePart.mp hd).2] at hle hlt
      exact ⟨ln, hln, hle, start_add_len (r.cell row c) _ ln ▸ hlt⟩
    · rintro ⟨ln, hln, hle, hlt⟩
      rw [← start_add_len] at hlt
      refine ⟨_, hmem.mpr ⟨ln, hln, mem_slicePart.mpr ⟨fun hzero => ?_, rfl⟩⟩, hle, hlt⟩
      rw [hzero] at hlt
      omega
  constructor
  · intro h
    refine ⟨rfl, fun ln => ⟨(r.cell row c).le_breakLine _ _, ?_⟩, fun ln k => byte_between _,
      fun k hk hbyte => (hcovers k).mp (h.covered k hk hbyte)⟩
    rw [lineStart_succ_back]
    exact (r.cell row c).breakLine_le_nextLine _ _
  · intro h
    refine ⟨fun d hd => ?_, fun d hd => ?_, pairwise_cellParts r row hc,
      fun k hk hbyte => (hcovers k).mpr (h.covered k hk hbyte)⟩
    · obtain ⟨ln, -, hd⟩ := hmem.mp hd
      rw [(mem_slicePart.mp hd).2]
      rfl
    · obtain ⟨ln, hln, hd⟩ := hmem.mp hd
      rw [(mem_slicePart.mp hd).2]
      exact hln

/-- **Whatever the row and the window, the calls of a row are what it draws; and its cells are drawn
as a whole exactly when each needs at most 32 lines.** -/
theorem row_unclipped_iff (o : Options) (r : PageRenderer) (row : Nat) : RowDrawn o r row ∧
    ((∀ c < r.tableCols, 1 ≤ r.colW c → CellDrawn o r.seesAll row c) ↔
      ∀ c < r.tableCols, 1 ≤ r.colW c → (r.cell row c).linesNeeded (r.colW c) ≤ 32) := by
  refine ⟨rowDrawn o r row, ?_⟩
  refine forall_congr' fun c => forall_congr' fun hc => forall_congr' fun hw => ?_
  rw [cellDrawn_iff hc]
  exact unclipped_rowLines_iff r.toTableState row hc hw

/-- Five cells of 29 letters, and one of 34 short words. -/
def narrowRow : Span :=
  ⟨fun k => if k < 150 then if k % 30 = 29 then 0x7C else 0x62
    else if k % 6 = 5 then 0x20 else 0x61, 353⟩

/-- The table of that row, four sections deep, fitted. -/
def narrowTable : PageRenderer :=
  (Runs.run (step { fonts := Display.blankFonts }) ((fresh fun _ => 0).begin 0)
    [.tableBegin { depth := 4 }, .tableRow narrowRow { depth := 4 }]).fitTable

/-- The words need a line each: the last two are never drawn. -/
theorem long_cell_clipped :
    ¬ CellDrawn { fonts := Display.blankFonts } narrowTable.seesAll 0 5 := by
  obtain ⟨hone, hcap, -⟩ := narrowTable.rowLines_bounds 0
  have hcols : 5 < narrowTable.tableCols := by decide +kernel
  have hcol : narrowTable.colW 5 = 8 := by decide +kernel
  have hmore : ¬ (narrowTable.cell 0 5).len ≤ (narrowTable.cell 0 5).lineStart 8 32 0 := by
    decide +kernel
  rw [cellDrawn_iff hcols, hcol, unclipped_iff _ _ hone]
  intro hend
  exact hmore (hend.trans ((narrowTable.cell 0 5).lineStart_mono 8 hcap 0))

end Thicket.Page
