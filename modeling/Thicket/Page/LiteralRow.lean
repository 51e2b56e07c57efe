import Thicket.Page.Align
import Thicket.Page.Prose

/-! # Preformatted lines

A preformatted line is laid out in columns of 6 pixels from the left edge and clipped at the margin.
The clip is decided run by run from the pen, which a run that was clipped leaves behind the last
column: so it does not matter how the line is split into runs. -/

namespace Thicket.Page

open Thicket.Lcd Thicket.Page.Span PageRenderer

/-! ## The trace -/

/-- A cell of a preformatted line, or the mark of the clip. -/
structure LinePiece where
  /-- The mark. -/
  mark : Bool
  /-- The bytes drawn. -/
  glyph : List UInt8
  /-- `_y`: its row, in page coordinates. -/
  row : UInt16
  /-- Where it is drawn. -/
  x : UInt16
  /-- `black`. -/
  ink : Bool

namespace PageRenderer

variable (o : Options) (t : Span) (invert : Bool)

/-- The pieces of `emit_literal`. -/
def literalPieces : List Nat → PageRenderer → List LinePiece
  | [], _ => []
  | k :: ks, r =>
      if right < r.x.toNat + fontAdvance then
        [⟨true, clipMark, r.y, UInt16.ofNat lastCell, !invert⟩]
      else ⟨false, t.glyph k, r.y, r.x, !invert⟩
        :: literalPieces ks (r.emitLiteralCell o t invert k)

/-- The pieces of one run of a line. -/
def textPieces (r : PageRenderer) (p : Span × Style) : List LinePiece :=
  let q := r.openText o p.1 p.2
  literalPieces o p.1 q.invert (p.1.steps 0 p.1.len) q.freshRow

/-- **The pieces of a line**, in the order they are laid out. -/
def linePieces (r : PageRenderer) (line : List (Span × Style)) : List LinePiece :=
  Runs.outputs (fun r p => r.onText o p.1 p.2) (textPieces o) r line

/-- The call that draws a piece. -/
def drawPiece (scroll : UInt16) (p : LinePiece) : LcdOp :=
  .drawText p.x (p.row - scroll) p.glyph p.ink

end PageRenderer

/-- The codepoints of a line, as chunks. -/
def lineGlyphs (line : List (Span × Style)) : List (List UInt8) :=
  line.flatMap fun p => (p.1.steps 0 p.1.len).map p.1.glyph

/-! ## What is drawn of it -/

/-- **Pieces have been laid out on the row of the pen**: nothing else moved down, and the glyphs
drawn are theirs, where the row is visible. -/
structure RowDraws (r s : PageRenderer) (ps : List LinePiece) : Prop where
  /-- The window. -/
  window_eq : s.clip = r.clip ∧ s.scroll = r.scroll
  /-- The row. -/
  y_eq : s.y = r.y
  /-- What was drawn. -/
  log_eq : ∃ ops : List LcdOp, s.log = r.log ++ ops.map (.draw r.y) ∧
    glyphsOf ops = if r.rowVisible then ps.map (drawPiece r.scroll) else []

variable {o : Options} {t : Span} {invert : Bool} {r s u : PageRenderer} {ps qs : List LinePiece}

/-- The row is as visible as it was. -/
theorem RowDraws.rowVisible_eq (h : RowDraws r s ps) : s.rowVisible = r.rowVisible := by
  rw [rowVisible, rowVisible, h.window_eq.1, h.window_eq.2, h.y_eq]

/-- Nothing drawn. -/
theorem RowDraws.of_eq (hw : s.clip = r.clip ∧ s.scroll = r.scroll) (hy : s.y = r.y)
    (hlog : s.log = r.log) : RowDraws r s [] :=
  ⟨hw, hy, [], by simp [hlog], by simp [glyphsOf]⟩

/-- One piece after another. -/
theorem RowDraws.trans (h : RowDraws r s ps) (k : RowDraws s u qs) : RowDraws r u (ps ++ qs) := by
  obtain ⟨ops, hops, hps⟩ := h.log_eq
  obtain ⟨ops', hops', hqs⟩ := k.log_eq
  rw [h.rowVisible_eq, h.window_eq.2] at hqs
  rw [h.y_eq] at hops'
  refine ⟨⟨k.window_eq.1.trans h.window_eq.1, k.window_eq.2.trans h.window_eq.2⟩,
    k.y_eq.trans h.y_eq, ops ++ ops', ?_, ?_⟩
  · rw [hops', hops, List.append_assoc, List.map_append]
  · rw [glyphsOf_append, hps, hqs]
    split
    · rw [List.map_append]
    · rfl

/-- Drawing one glyph, and others that are none. -/
theorem RowDraws.paint {d : Drawing} {p : LinePiece}
    (hd : glyphsOf (d r.toLayout r.screenY) = [drawPiece r.scroll p]) :
    RowDraws r (r.paint d) [p] := by
  rw [PageRenderer.paint]
  by_cases hv : r.rowVisible = true
  · rw [if_pos hv]
    exact ⟨⟨rfl, rfl⟩, rfl, _, rfl, by rw [if_pos hv]; exact hd⟩
  · rw [if_neg hv]
    exact ⟨⟨rfl, rfl⟩, rfl, [], (List.append_nil _).symm, by rw [if_neg hv]; rfl⟩

/-- **A run draws its pieces**, on its row. -/
theorem rowDraws_emitLiteral (ks : List Nat) (r : PageRenderer) :
    RowDraws r (emitLiteralFrom o t invert ks r) (literalPieces o t invert ks r) := by
  induction ks generalizing r with
  | nil => exact .of_eq ⟨rfl, rfl⟩ rfl rfl
  | cons k ks ih =>
    rw [emitLiteralFrom, literalPieces]
    split
    · have hmark : RowDraws r (r.paint (clipOps o invert))
          [⟨true, clipMark, r.y, UInt16.ofNat lastCell, !invert⟩] := .paint rfl
      have hopen : RowDraws (r.paint (clipOps o invert))
          { r.paint (clipOps o invert) with rowOpen := true } [] := .of_eq ⟨rfl, rfl⟩ rfl rfl
      exact hmark.trans hopen
    · let note := r.noteUnless (glyphFor o.fonts (codepointOf (t.glyph k))).isSome
        (codepointOf (t.glyph k))
      have hnote : RowDraws r note [] := .of_eq ⟨rfl, rfl⟩ rfl rfl
      have hcell : RowDraws note (note.paint (literalOps o invert (t.glyph k)))
          [⟨false, t.glyph k, r.y, r.x, !invert⟩] := by
        apply RowDraws.paint
        rw [literalOps, glyphsOf_append]
        cases invert <;> rfl
      have hover : RowDraws (note.paint (literalOps o invert (t.glyph k)))
          (r.emitLiteralCell o t invert k) [] := .of_eq ⟨rfl, rfl⟩ rfl rfl
      exact ((hnote.trans hcell).trans hover).trans (ih _)

/-! ## Columns -/

/-- The columns of a line, from its left edge. -/
def columns (edge : Nat) : Nat := (right - edge) / fontAdvance

/-- The columns end at the margin. -/
theorem columns_end (st : Style) : runEdge st + 6 * columns (runEdge st) = right := by
  have hedge : runEdge st = 2 + min st.depth.toNat 4 * 12 := rfl
  have hright : right = 398 := rfl
  rw [columns, show fontAdvance = 6 from rfl]
  omega

/-- The pieces of a run that begins in a column: cells up to the last column, then the mark. -/
def columnPieces (row : UInt16) (edge : Nat) (ink : Bool) : Nat → List (List UInt8) → List LinePiece
  | _, [] => []
  | j, g :: gs =>
      if j < columns edge then
        ⟨false, g, row, UInt16.ofNat (edge + 6 * j), ink⟩ :: columnPieces row edge ink (j + 1) gs
      else [⟨true, clipMark, row, UInt16.ofNat lastCell, ink⟩]

/-- **The pen counts the columns** and stops behind the last one. -/
def PenAt (st : Style) (j : Nat) (r : PageRenderer) : Prop :=
  r.x.toNat = runEdge st + 6 * min j (columns (runEdge st))

/-- **A run that begins in a column.** -/
theorem literalPieces_eq {st : Style} (ks : List Nat) {j : Nat} {r : PageRenderer}
    (hpen : PenAt st j r) :
    literalPieces o t invert ks r
        = columnPieces r.y (runEdge st) (!invert) j (ks.map t.glyph) ∧
      PenAt st (j + ks.length) (emitLiteralFrom o t invert ks r) ∧
      (emitLiteralFrom o t invert ks r).rowOpen = (r.rowOpen || !ks.isEmpty) := by
  have hend := columns_end st
  have hright : right = 398 := rfl
  have hsix : fontAdvance = 6 := rfl
  rw [PenAt] at hpen
  induction ks generalizing j r with
  | nil => exact ⟨rfl, hpen, (Bool.or_false _).symm⟩
  | cons k ks ih =>
    rw [literalPieces, emitLiteralFrom, List.map_cons, columnPieces, List.length_cons]
    by_cases hroom : j < columns (runEdge st)
    · -- the cell goes into its column, and the pen into the next one
      have hin : ¬ right < r.x.toNat + fontAdvance := by omega
      have hx : (r.emitLiteralCell o t invert k).x.toNat
          = runEdge st + 6 * min (j + 1) (columns (runEdge st)) := by
        rw [emitLiteralCell_x t invert k (by omega), hsix]
        omega
      have hrow : (r.emitLiteralCell o t invert k).y = r.y := by
        simp [emitLiteralCell, penOver, noteUnless]
      have hcolumn : r.x = UInt16.ofNat (runEdge st + 6 * j) := by
        rw [← UInt16.toNat_inj, hpen, UInt16.toNat_ofNat']
        omega
      obtain ⟨hpieces, hpen', hopen⟩ := ih hx
      rw [if_neg hin, if_neg hin, if_pos hroom, hpieces, hrow, hcolumn]
      refine ⟨rfl, ?_, ?_⟩
      · rw [show j + (ks.length + 1) = j + 1 + ks.length by omega]
        exact hpen'
      · rw [hopen]
        simp [emitLiteralCell, penOver]
    · -- behind the last column, only the mark
      have hout : right < r.x.toNat + fontAdvance := by omega
      rw [if_pos hout, if_pos hout, if_neg hroom]
      refine ⟨rfl, ?_, ?_⟩
      · show (r.paint (clipOps o invert)).x.toNat = _
        rw [toLayout_paint, hpen]
        omega
      · simp

/-! ## Lines -/

/-- Runs of preformatted text at one depth. -/
structure LiteralLine (d : UInt8) (line : List (Span × Style)) : Prop where
  /-- Preformatted. -/
  literal : ∀ p ∈ line, p.2.literal = true
  /-- One depth. -/
  depth : ∀ p ∈ line, p.2.depth = d
  /-- Well-formed. -/
  wellFormed : ∀ p ∈ line, WellFormed p.1

/-- **Between the runs of a line**: so many codepoints have been laid out, or the row is closed. -/
def AtColumn (st : Style) (j : Nat) (r : PageRenderer) : Prop :=
  (r.rowOpen = true ∧ PenAt st j r) ∨ (r.rowOpen = false ∧ j = 0)

/-- The alignment of a run does not move the pen of `emit_literal`: it opens the row at the left
edge. -/
theorem openText_freshRow {st : Style} {j : Nat} (hat : AtColumn st j r) :
    PenAt st j (r.openText o t st).freshRow := by
  have hbounds : 2 ≤ runEdge st ∧ runEdge st ≤ 50 := Layout.leftEdge_bounds _
  have hx : ((r.openText o t st).freshRow).x
      = if r.rowOpen then (r.openText o t st).x else UInt16.ofNat (runEdge st) := rfl
  rw [PenAt, hx]
  rcases hat with ⟨hopen, hpen⟩ | ⟨hopen, rfl⟩
  · have haligned : (r.openText o t st).x = r.x := by
      have hrow : ¬ (((r.startText st).freshRow).rowOpen = false ∧ st.align ≠ .left ∧
          (UInt16.ofNat (t.cells 0 t.len * ((r.startText st).freshRow).advance)).toNat
            ≤ right - ((r.startText st).freshRow).leftEdge) := fun h => by
        have hclosed : r.rowOpen = false := h.1
        rw [hopen] at hclosed
        cases hclosed
      show alignedX t st.align ((r.startText st).freshRow).toLayout = r.x
      rw [alignedX, if_neg hrow]
      show (if r.rowOpen then r.x else _) = r.x
      rw [if_pos hopen]
    rw [if_pos hopen, haligned]
    exact hpen
  · rw [hopen, if_neg Bool.false_ne_true, UInt16.toNat_ofNat']
    omega

/-- **One run of a line**: its pieces follow those of the runs before it. -/
theorem onText_literal {st : Style} (hlit : st.literal = true) {j : Nat} (hat : AtColumn st j r) :
    textPieces o r (t, st) = columnPieces r.y (runEdge st) (!(r.openText o t st).invert) j
        ((t.steps 0 t.len).map t.glyph) ∧
      AtColumn st (j + (t.steps 0 t.len).length) (r.onText o t st) ∧
      RowDraws r (r.onText o t st) (textPieces o r (t, st)) := by
  obtain ⟨hpieces, hpen, hopen⟩ :
      literalPieces o t (r.openText o t st).invert _ (r.openText o t st).freshRow = _ ∧ _ ∧ _ :=
    literalPieces_eq (t.steps 0 t.len) (openText_freshRow hat)
  have hlitq : (r.openText o t st).literal = true := hlit
  have htext : r.onText o t st = emitLiteralFrom o t (r.openText o t st).invert (t.steps 0 t.len)
      (r.openText o t st).freshRow := by
    rw [onText, emitHere, emitRun, if_pos hlitq, emitLiteral]
  have hdraws : RowDraws (r.openText o t st).freshRow (emitLiteralFrom o t
      (r.openText o t st).invert (t.steps 0 t.len) (r.openText o t st).freshRow) _ :=
    rowDraws_emitLiteral _ _
  rw [← htext] at hpen hopen hdraws
  have hstart : RowDraws r (r.openText o t st).freshRow [] := .of_eq ⟨rfl, rfl⟩ rfl rfl
  refine ⟨hpieces, ?_, hstart.trans hdraws⟩
  by_cases hrow : (r.onText o t st).rowOpen = true
  · exact .inl ⟨hrow, hpen⟩
  · -- nothing was laid out, and nothing had been
    have hclosed : (r.rowOpen || !(t.steps 0 t.len).isEmpty) = false := by
      rw [← Bool.not_eq_true]
      exact fun h => hrow (hopen.trans h)
    obtain ⟨hr, hnil⟩ := Bool.or_eq_false_iff.mp hclosed
    have hlen : (t.steps 0 t.len).length = 0 := by simpa using hnil
    refine .inr ⟨Bool.not_eq_true _ |>.mp hrow, ?_⟩
    rcases hat with ⟨hopen', -⟩ | ⟨-, hj⟩
    · rw [hopen'] at hr
      cases hr
    · rw [hj, hlen]

/-- What a cell of a line shows, and where. -/
def LinePiece.place (p : LinePiece) : List UInt8 × UInt16 × UInt16 := (p.glyph, p.row, p.x)

/-- The cells among pieces. -/
def cellsOf (ps : List LinePiece) : List (List UInt8 × UInt16 × UInt16) :=
  (ps.filter fun p => !p.mark).map LinePiece.place

/-- Chunks in columns, from one on. -/
def inColumns (row : UInt16) (edge j : Nat) (gs : List (List UInt8)) :
    List (List UInt8 × UInt16 × UInt16) :=
  (gs.zipIdx j).map fun g => (g.1, row, UInt16.ofNat (edge + 6 * g.2))

/-- The cells of a run are its first codepoints, in their columns. -/
theorem cellsOf_columnPieces (row : UInt16) (edge : Nat) (ink : Bool) (j : Nat)
    (gs : List (List UInt8)) : cellsOf (columnPieces row edge ink j gs)
      = inColumns row edge j (gs.take (columns edge - j)) := by
  induction gs generalizing j with
  | nil => simp [columnPieces, cellsOf, inColumns]
  | cons g gs ih =>
    rw [columnPieces]
    by_cases hroom : j < columns edge
    · have hleft : columns edge - j = columns edge - (j + 1) + 1 := by omega
      have hcell : cellsOf (⟨false, g, row, UInt16.ofNat (edge + 6 * j), ink⟩
          :: columnPieces row edge ink (j + 1) gs)
          = (g, row, UInt16.ofNat (edge + 6 * j))
            :: cellsOf (columnPieces row edge ink (j + 1) gs) := rfl
      rw [if_pos hroom, hcell, ih, hleft, List.take_succ_cons]
      rfl
    · rw [if_neg hroom, Nat.sub_eq_zero_of_le (Nat.not_lt.mp hroom)]
      rfl

/-- A run has the mark when it goes on behind the last column. -/
theorem mark_columnPieces (row : UInt16) (edge : Nat) (ink : Bool) (j : Nat)
    (gs : List (List UInt8)) : (∃ p ∈ columnPieces row edge ink j gs, p.mark = true) ↔
      gs ≠ [] ∧ columns edge < j + gs.length := by
  induction gs generalizing j with
  | nil => simp [columnPieces]
  | cons g gs ih =>
    rw [columnPieces, List.length_cons]
    by_cases hroom : j < columns edge
    · rw [if_pos hroom]
      simp only [List.mem_cons, exists_eq_or_imp, Bool.false_eq_true, false_or, ih]
      have hlen := List.length_pos_iff (l := gs)
      rw [← hlen]
      simp only [ne_eq, reduceCtorEq, not_false_eq_true, true_and]
      omega
    · rw [if_neg hroom]
      simp only [List.mem_singleton, exists_eq_left, ne_eq, reduceCtorEq, not_false_eq_true,
        true_and, true_iff]
      omega

/-- The mark is in the last column. -/
theorem place_of_mark {row : UInt16} {edge : Nat} {ink : Bool} {j : Nat} {gs : List (List UInt8)}
    {p : LinePiece} (hp : p ∈ columnPieces row edge ink j gs) (hmark : p.mark = true) :
    p.place = (clipMark, row, UInt16.ofNat lastCell) := by
  induction gs generalizing j with
  | nil => cases hp
  | cons g gs ih =>
    rw [columnPieces] at hp
    split at hp
    · obtain rfl | hp := List.mem_cons.mp hp
      · cases hmark
      · exact ih hp
    · obtain rfl := List.mem_singleton.mp hp
      rfl

/-- Chunks behind others. -/
theorem inColumns_append (row : UInt16) (edge j n : Nat) (gs hs : List (List UInt8)) :
    inColumns row edge j ((gs ++ hs).take (n - j))
      = inColumns row edge j (gs.take (n - j))
        ++ inColumns row edge (j + gs.length) (hs.take (n - (j + gs.length))) := by
  have hleft : n - j - gs.length = n - (j + gs.length) := Nat.sub_sub _ _ _
  rw [List.take_append, hleft, inColumns, List.zipIdx_append, List.map_append]
  by_cases hle : gs.length ≤ n - j
  · rw [List.length_take, Nat.min_eq_right hle]
    rfl
  · have hnone : n - (j + gs.length) = 0 := by omega
    rw [hnone, List.take_zero]
    rfl

/-- **What is laid out of a line** that has come to a column. -/
structure LaidFrom (o : Options) (d : UInt8) (line : List (Span × Style)) (j : Nat)
    (r : PageRenderer) : Prop where
  /-- The cells. -/
  cells : cellsOf (linePieces o r line) = inColumns r.y (runEdge { depth := d }) j
    ((lineGlyphs line).take (columns (runEdge { depth := d }) - j))
  /-- The mark. -/
  mark : (∃ p ∈ linePieces o r line, p.mark = true) ↔
    lineGlyphs line ≠ [] ∧ columns (runEdge { depth := d }) < j + (lineGlyphs line).length
  /-- Where it is. -/
  place : ∀ p ∈ linePieces o r line, p.mark = true →
    p.place = (clipMark, r.y, UInt16.ofNat lastCell)
  /-- What is drawn. -/
  draws : RowDraws r (textLine o r line) (linePieces o r line)

/-- **A line, run by run**: the column that the runs before have come to is the invariant. -/
theorem laidFrom {d : UInt8} {line : List (Span × Style)} (hline : LiteralLine d line) {j : Nat}
    {st : Style} (hst : st.depth = d) (hat : AtColumn st j r) : LaidFrom o d line j r := by
  induction line generalizing j r st with
  | nil =>
    refine ⟨?_, ?_, fun p hp => absurd hp List.not_mem_nil, .of_eq ⟨rfl, rfl⟩ rfl rfl⟩
    · simp [lineGlyphs, linePieces, cellsOf, inColumns]
    · simp [lineGlyphs, linePieces]
  | cons p line ih =>
    have hdepth : p.2.depth = d := hline.depth p List.mem_cons_self
    have hedge : runEdge p.2 = runEdge { depth := d } := by rw [runEdge, hdepth]; rfl
    have hat' : AtColumn p.2 j r := by
      rw [AtColumn, PenAt, hedge, ← hst]
      exact hat
    obtain ⟨hpieces, hafter, hdraws⟩ :=
      onText_literal (o := o) (t := p.1) (hline.literal p List.mem_cons_self) hat'
    have hrest := ih (j := j + (p.1.steps 0 p.1.len).length)
      ⟨fun q hq => hline.literal q (List.mem_cons_of_mem p hq),
        fun q hq => hline.depth q (List.mem_cons_of_mem p hq),
        fun q hq => hline.wellFormed q (List.mem_cons_of_mem p hq)⟩ hdepth hafter
    have hsplit : linePieces o r (p :: line)
        = columnPieces r.y (runEdge { depth := d }) (!(r.openText o p.1 p.2).invert) j
            ((p.1.steps 0 p.1.len).map p.1.glyph)
          ++ linePieces o (r.onText o p.1 p.2) line := by
      rw [linePieces, Runs.outputs_cons, ← linePieces, ← hedge, ← hpieces]
    have hglyphs : lineGlyphs (p :: line)
        = (p.1.steps 0 p.1.len).map p.1.glyph ++ lineGlyphs line := rfl
    have hrow := hdraws.y_eq
    refine ⟨?_, ?_, fun q hq hmark => ?_, ?_⟩
    · rw [hsplit, hglyphs, inColumns_append, cellsOf, List.filter_append, List.map_append,
        ← cellsOf, ← cellsOf, cellsOf_columnPieces, hrest.cells, hrow, List.length_map]
    · rw [hsplit, hglyphs]
      simp only [List.mem_append, or_and_right, exists_or]
      rw [mark_columnPieces, hrest.mark, List.length_append, List.length_map,
        ← List.length_pos_iff, ← List.length_pos_iff, ← List.length_pos_iff, List.length_append,
        List.length_map]
      omega
    · rw [hsplit] at hq
      rcases List.mem_append.mp hq with hq | hq
      · exact place_of_mark hq hmark
      · rw [← hrow]
        exact hrest.place q hq hmark
    · exact hdraws.trans hrest.draws

/-! ## Preformatted lines keep their columns -/

/-- **A preformatted line in its columns.** -/
structure KeepsColumns (o : Options) (d : UInt8) (line : List (Span × Style)) (r : PageRenderer) :
    Prop where
  /-- The codepoint `k` of the line is laid out at `left_edge() + 6 k` on the row, for every column
  there is. -/
  cells : cellsOf (linePieces o r line)
    = ((lineGlyphs line).take (columns (runEdge { depth := d }))).zipIdx.map fun g =>
        (g.1, r.y, UInt16.ofNat (runEdge { depth := d } + 6 * g.2))
  /-- Each of them is one codepoint. -/
  whole : ∀ g ∈ lineGlyphs line, (nextCp g).2 = []
  /-- The mark is laid out iff there are more codepoints than columns. -/
  mark : (∃ p ∈ linePieces o r line, p.mark = true) ↔
    columns (runEdge { depth := d }) < (lineGlyphs line).length
  /-- It is in the last column of the row. -/
  place : ∀ p ∈ linePieces o r line, p.mark = true → p.place = (clipMark, r.y,
    UInt16.ofNat (runEdge { depth := d } + 6 * (columns (runEdge { depth := d }) - 1)))
  /-- No newline: the row stays, and all that is logged is drawn for it. -/
  stays : StaysAt r (textLine o r line)
  /-- Cells and marks are what is drawn, where the row is visible. -/
  drawn : glyphsOf (newOps r (textLine o r line))
    = if r.rowVisible then (linePieces o r line).map (drawPiece r.scroll) else []

/-- **A preformatted line keeps its columns**, however it is split into runs. -/
theorem literal_row (o : Options) {d : UInt8} {line : List (Span × Style)}
    (hline : LiteralLine d line) (hopen : r.rowOpen = false) : KeepsColumns o d line r := by
  have hat : AtColumn { depth := d } 0 r := .inr ⟨hopen, rfl⟩
  have hend := columns_end { depth := d }
  have hbounds : 2 ≤ runEdge { depth := d } ∧ runEdge { depth := d } ≤ 50 :=
    Layout.leftEdge_bounds _
  have hright : right = 398 := rfl
  have hlast : lastCell = runEdge { depth := d } + 6 * (columns (runEdge { depth := d }) - 1) := by
    rw [lastCell, show fontAdvance = 6 from rfl]
    omega
  have hlaid := laidFrom (o := o) hline rfl hat
  obtain ⟨ops, hops, hglyphs⟩ := hlaid.draws.log_eq
  refine ⟨hlaid.cells, fun g hg => ?_, ?_, fun p hp hmark => ?_, ⟨hlaid.draws.y_eq, ops, hops⟩, ?_⟩
  · obtain ⟨p, hp, hg⟩ := List.mem_flatMap.mp hg
    obtain ⟨k, hk, rfl⟩ := List.mem_map.mp hg
    exact (hline.wellFormed p hp).nextCp_glyph hk
  · rw [hlaid.mark, ← List.length_pos_iff]
    omega
  · rw [← hlast]
    exact hlaid.place p hp hmark
  · rw [newOps, hops, List.drop_left, issued_draws]
    exact hglyphs

/-- Three letters in two runs, the first of them flush right, at the deepest indent. -/
theorem literal_row_sample : KeepsColumns { fonts := Display.blankFonts } 4
    [(.ofList [0x61, 0x62], { depth := 4, literal := true, align := .right }),
      (.ofList [0x63], { depth := 4, literal := true })] (fresh fun _ => 0) := by
  refine literal_row _ ⟨?_, ?_, ?_⟩ rfl
  · decide
  · decide
  · intro p hp
    rcases List.mem_cons.mp hp with rfl | hp
    · constructor <;> decide
    · obtain rfl := List.mem_singleton.mp hp
      constructor <;> decide

end Thicket.Page
