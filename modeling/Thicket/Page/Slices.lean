import Thicket.Page.Returns

/-! # The slices of a table fit

A slice has at most as many cells as its column, and the fitted columns of a table have at most
198 cells together. So the pen of a slice stays far from 2^16, and so does the row that the slices
of a line can come to. -/

namespace Thicket.Page

open Thicket.Lcd Thicket.Page.Span

/-! ## The cells of a slice -/

namespace Span

/-- As far as a walk goes it has counted its cells. -/
theorem length_steps_le_of_le_walk (p : Span) {w a b : Nat} (h : b ≤ p.walk w a) :
    (p.steps a b).length ≤ w := by
  induction w generalizing a with
  | zero =>
    rw [steps, positions_of_le (show b ≤ a from h)]
    exact Nat.le_refl 0
  | succ w ih =>
    rw [walk] at h
    rw [steps, positions_eq p.seqLenAt_pos]
    split at h
    · split
      · exact Nat.succ_le_succ (ih h)
      · exact Nat.zero_le _
    · rw [if_neg (Nat.not_lt.mpr h)]
      exact Nat.zero_le _

/-- A line ends where the walk does, or before. -/
theorem breakLine_le (p : Span) (w start : Nat) : p.breakLine w start ≤ p.walk w start := by
  unfold breakLine
  dsimp only
  split_ifs
  · exact backWhile_le _ _
  · exact Nat.le_refl _
  · exact Nat.le_refl _

/-- **A slice has at most as many cells as its column.** -/
theorem cells_slice_le (p : Span) (w ln : Nat) :
    ((p.slice w ln).steps 0 (p.slice w ln).len).length ≤ w := by
  have hlen : ((p.slice w ln).steps 0 (p.slice w ln).len).length
      = (p.steps (p.lineStart w ln 0)
        (p.lineStart w ln 0 + (p.breakLine w (p.lineStart w ln 0) - p.lineStart w ln 0))).length :=
    length_positions_add p.seqLenAt (p.lineStart w ln 0) 0 _
  rw [hlen]
  by_cases hle : p.lineStart w ln 0 ≤ p.breakLine w (p.lineStart w ln 0)
  · rw [Nat.add_sub_cancel' hle]
    exact p.length_steps_le_of_le_walk (p.breakLine_le w _)
  · rw [Nat.sub_eq_zero_of_le (Nat.le_of_not_le hle), Nat.add_zero, steps,
      positions_of_le (Nat.le_refl _)]
    exact Nat.zero_le _

end Span

/-! ## How far a run gets -/

/-- At most `n` rows further down. -/
structure RowsDown (o : Options) (n : Nat) (r s : PageRenderer) : Prop where
  /-- Only the pen moved. -/
  pen : OnlyPen r s
  /-- The row. -/
  row : ∃ k ≤ n, s.y = r.y + UInt16.ofNat (k * (r.rowH o).toNat)

/-- At most `n` cells further: at most so many rows down, and the pen at most so far right. -/
structure Within (o : Options) (n : Nat) (r s : PageRenderer) : Prop extends RowsDown o n r s where
  /-- The pen. -/
  x_le : max s.x.toNat r.leftEdge ≤ max r.x.toNat r.leftEdge + n * r.advance

variable {o : Options} {r s u : PageRenderer} {n m : Nat}

/-- Nothing done. -/
theorem RowsDown.refl (o : Options) (r : PageRenderer) : RowsDown o 0 r r :=
  ⟨.refl r, ⟨0, Nat.le_refl 0, by simp⟩⟩

/-- One piece after another. -/
theorem RowsDown.trans (h : RowsDown o n r s) (k : RowsDown o m s u) :
    RowsDown o (n + m) r u := by
  obtain ⟨i, hi, hy⟩ := h.row
  obtain ⟨j, hj, hy'⟩ := k.row
  refine ⟨h.pen.trans k.pen, i + j, Nat.add_le_add hi hj, ?_⟩
  rw [hy', hy, h.pen.rowH_eq, Nat.add_mul, UInt16.ofNat_add, UInt16.add_assoc]

/-- A bound may be raised. -/
theorem RowsDown.mono (h : RowsDown o n r s) (hnm : n ≤ m) : RowsDown o m r s := by
  obtain ⟨k, hk, hy⟩ := h.row
  exact ⟨h.pen, k, hk.trans hnm, hy⟩

/-- Nothing done. -/
theorem Within.refl (o : Options) (r : PageRenderer) : Within o 0 r r := ⟨.refl o r, by simp⟩

/-- One piece after another. -/
theorem Within.trans (h : Within o n r s) (k : Within o m s u) : Within o (n + m) r u := by
  refine ⟨h.toRowsDown.trans k.toRowsDown, ?_⟩
  have hx := h.x_le
  have hx' := k.x_le
  rw [h.pen.leftEdge_eq, h.pen.advance_eq] at hx'
  rw [Nat.add_mul]
  omega

/-- Columns that leave the pen of every slice, and the row below its line, within 16 bits. -/
def NarrowColumns (r : PageRenderer) : Prop := TableState.sumCols r.tableCols r.colW ≤ 198

/-- The columns stay as they are. -/
theorem OnlyPen.narrow (h : OnlyPen r s) (hn : NarrowColumns r) : NarrowColumns s := by
  rw [NarrowColumns, h.table_eq]
  exact hn

namespace PageRenderer

variable (t : Span) (invert : Bool)

/-- The sum of two 16-bit numbers is at most their sum. -/
theorem toNat_add_le (x y : UInt16) : (x + y).toNat ≤ x.toNat + y.toNat := by
  rw [UInt16.toNat_add]
  exact Nat.mod_le _ _

/-- A codepoint of the row's face. -/
theorem within_emitGlyph (d : List UInt8 → Drawing) (r : PageRenderer) (k : Nat) :
    Within o 1 r (r.emitGlyph o t d k) := by
  obtain ⟨hx, hy⟩ := emitGlyph_pen (o := o) t d r k
  refine ⟨⟨onlyPen_emitGlyph t d r k, ⟨0, Nat.zero_le 1, by simp [hy]⟩⟩, ?_⟩
  have hle := toNat_add_le r.x (UInt16.ofNat r.advance)
  rw [toNat_advance] at hle
  rw [hx]
  omega

/-- A new line puts the pen at the left edge of the next row. -/
theorem newline_row (r : PageRenderer) :
    (r.newline o).y = r.y + UInt16.ofNat (1 * (r.rowH o).toNat) ∧
      (r.newline o).x.toNat = r.leftEdge := by
  have hedge := r.leftEdge_bounds
  refine ⟨?_, ?_⟩
  · simp [newline, toLeftEdge, down]
  · show (UInt16.ofNat r.leftEdge).toNat = r.leftEdge
    rw [UInt16.toNat_ofNat']
    omega

/-- One cell of a word that is broken at the margin. -/
theorem within_emitBrokenCell (r : PageRenderer) (k : Nat) :
    Within o 1 r (r.emitBrokenCell o t invert k) := by
  unfold emitBrokenCell wrapIfNeeded
  split
  · -- the cell begins a row of its own
    obtain ⟨hy, hx⟩ := newline_row (o := o) r
    have hcell := within_emitGlyph (o := o) t (brokenOps o invert) (r.newline o) k
    have hpen : OnlyPen r (r.newline o) := onlyPen_newline r
    have hxle := hcell.x_le
    rw [hpen.leftEdge_eq, hpen.advance_eq, hx] at hxle
    refine ⟨⟨hpen.trans hcell.pen, ⟨1, Nat.le_refl 1, ?_⟩⟩, by omega⟩
    exact (emitGlyph_pen t _ _ k).2.trans hy
  · exact within_emitGlyph t _ r k

/-- Cells, one after the other. -/
theorem within_run {step : PageRenderer → Nat → PageRenderer}
    (hstep : ∀ r k, Within o 1 r (step r k)) (ks : List Nat) (r : PageRenderer) :
    Within o ks.length r (Runs.run step r ks) := by
  induction ks generalizing r with
  | nil => exact .refl o r
  | cons k ks ih =>
    rw [List.length_cons, Nat.add_comm]
    exact (hstep r k).trans (ih (step r k))

/-- Where a word begins: on a new row, or behind its spaces. -/
theorem breakOrLead_row (r : PageRenderer) (w : Word) :
    ((r.breakOrLead o t invert w).y = r.y + UInt16.ofNat (1 * (r.rowH o).toNat) ∧
        (r.breakOrLead o t invert w).x.toNat = r.leftEdge) ∨
      ((r.breakOrLead o t invert w).y = r.y ∧
        (r.breakOrLead o t invert w).x.toNat ≤ r.x.toNat + (leadW r.advance w).toNat) := by
  unfold breakOrLead
  split_ifs
  · exact .inl (newline_row r)
  · exact .inr ⟨rfl, Nat.le_add_right _ _⟩
  · refine .inr ?_
    simp only [emitLead, penOver, toLayout_paint]
    exact ⟨trivial, toNat_add_le _ _⟩

/-- The spaces in front of a word are at most as wide as their cells. -/
theorem toNat_leadW_le (adv : Nat) (w : Word) : (leadW adv w).toNat ≤ (w.sp - w.i) * adv := by
  rw [leadW, UInt16.toNat_ofNat']
  exact Nat.mod_le _ _

/-- **A word gets no further than its cells**, the spaces in front of it included. -/
theorem within_emitWord (r : PageRenderer) {i : Nat} (hi : i < t.len) :
    Within o (t.steps i (t.wordAt i).w).length r (r.emitWord o t invert (t.wordAt i)) := by
  unfold emitWord
  split
  · exact within_run (within_emitBrokenCell t invert) _ r
  · have hpen := onlyPen_breakOrLead (o := o) t invert r (t.wordAt i)
    obtain ⟨hx, hy⟩ := emitCells_pen (o := o) t invert (t.steps (t.wordAt i).sp (t.wordAt i).w)
      (r.breakOrLead o t invert (t.wordAt i))
    have hcells : (t.steps i (t.wordAt i).w).length
        = ((t.wordAt i).sp - i) + (t.steps (t.wordAt i).sp (t.wordAt i).w).length :=
      t.cells_wordAt i
    -- a word has a cell, which pays for the row it may begin
    have hpos : 1 ≤ (t.steps i (t.wordAt i).w).length := by
      rw [steps, positions_eq t.seqLenAt_pos, if_pos (t.lt_wordAt_w hi)]
      exact Nat.le_add_left 1 _
    have hle := toNat_add_le (r.breakOrLead o t invert (t.wordAt i)).x
      (UInt16.ofNat ((t.steps (t.wordAt i).sp (t.wordAt i).w).length * r.advance))
    have hmod : (UInt16.ofNat ((t.steps (t.wordAt i).sp (t.wordAt i).w).length * r.advance)).toNat
        ≤ (t.steps (t.wordAt i).sp (t.wordAt i).w).length * r.advance := by
      rw [UInt16.toNat_ofNat']
      exact Nat.mod_le _ _
    have hlead : (leadW r.advance (t.wordAt i)).toNat ≤ ((t.wordAt i).sp - i) * r.advance :=
      toNat_leadW_le _ _
    refine ⟨⟨hpen.trans (Runs.run_rel OnlyPen .refl .trans (onlyPen_emitGlyph t _) _ _), ?_⟩, ?_⟩
    · rw [hy]
      obtain hrow | hrow := breakOrLead_row (o := o) t invert r (t.wordAt i)
      · exact ⟨1, hpos, hrow.1⟩
      · exact ⟨0, Nat.zero_le _, by simp [hrow.1]⟩
    · rw [hx, hpen.advance_eq, hcells, Nat.add_mul]
      obtain hrow | hrow := breakOrLead_row (o := o) t invert r (t.wordAt i) <;> omega

/-- **A word within reach of 2^16 fits.** -/
theorem wordFits_of_le {r : PageRenderer} {i : Nat}
    (h : max r.x.toNat r.leftEdge + (t.steps i (t.wordAt i).w).length * r.advance ≤ 65535) :
    WordFits o t invert r (t.wordAt i) := by
  have hcells : (t.steps i (t.wordAt i).w).length
      = ((t.wordAt i).sp - i) + t.cells (t.wordAt i).sp (t.wordAt i).w := t.cells_wordAt i
  have hlead : (leadW r.advance (t.wordAt i)).toNat ≤ ((t.wordAt i).sp - i) * r.advance :=
    toNat_leadW_le _ _
  rw [hcells, Nat.add_mul] at h
  refine .inr ⟨fun _ _ _ => by omega, fun _ _ => ?_⟩
  obtain hrow | hrow := breakOrLead_row (o := o) t invert r (t.wordAt i) <;> omega

/-- The words of a run, one after the other: the cells they take, and their conditions. -/
theorem within_emitWords {ws : List Word} (hws : ∀ w ∈ ws, w = t.wordAt w.i ∧ w.i < t.len)
    (r : PageRenderer) :
    Within o (ws.flatMap fun w => t.steps w.i w.w).length r
        (Runs.run (emitWord o t invert) r ws) ∧
      (max r.x.toNat r.leftEdge + (ws.flatMap fun w => t.steps w.i w.w).length * r.advance ≤ 65535 →
        Runs.Along (emitWord o t invert) (WordFits o t invert) r ws) := by
  induction ws generalizing r with
  | nil => exact ⟨.refl o r, fun _ => trivial⟩
  | cons w ws ih =>
    obtain ⟨hw, hi⟩ := hws w List.mem_cons_self
    have hword := within_emitWord (o := o) t invert r hi
    rw [← hw] at hword
    obtain ⟨hrest, halong⟩ := ih (fun v hv => hws v (List.mem_cons_of_mem w hv))
      (r.emitWord o t invert w)
    rw [List.flatMap_cons, List.length_append]
    refine ⟨hword.trans hrest, fun hle => ⟨?_, halong ?_⟩⟩
    · have hfits := wordFits_of_le (o := o) t invert (r := r) (i := w.i)
      rw [← hw] at hfits
      exact hfits (by rw [Nat.add_mul] at hle; omega)
    · have hx := hword.x_le
      rw [hword.pen.leftEdge_eq, hword.pen.advance_eq]
      rw [Nat.add_mul] at hle
      omega

/-- **A run within reach of 2^16 fits**, and gets no further down than it has cells. -/
theorem emitRun_of_le (hr : Ready r) (hopen : r.rowOpen = true)
    (hn : (t.steps 0 t.len).length ≤ n)
    (hle : max r.x.toNat r.leftEdge + n * r.advance ≤ 65535) :
    RowsDown o n r (r.emitRun o t invert) ∧ (RectsFit (r.emitRun o t invert) ↔ RectsFit r) := by
  -- the row of a table is open: the guard leaves the pen at its column
  have hguard : r.guardIndent = r := by
    rw [guardIndent, if_neg fun hc => absurd hc.1 (by simp [hopen])]
  by_cases hlit : r.literal = true
  · have hrun : r.emitRun o t invert = r.emitLiteral o t invert := if_pos hlit
    have hpen := onlyPen_emitRun (o := o) t invert r
    rw [hrun] at hpen ⊢
    -- preformatted text does not wrap
    rw [rectsFit_emitLiteral t invert hr]
    refine ⟨⟨hpen, 0, Nat.zero_le n, ?_⟩, Iff.rfl⟩
    have hy : (r.emitLiteral o t invert).y = r.y := emitLiteralFrom_y t invert _ r.freshRow
    simp [hy]
  · have hwords := within_emitWords (o := o) t invert (fun w hw => t.eq_wordAt_of_mem_words hw) r
    rw [t.flatMap_words] at hwords
    have hfits : RunFits o t invert r := by
      refine .inr ?_
      rw [hguard]
      exact hwords.2 ((Nat.add_le_add_left (Nat.mul_le_mul_right _ hn) _).trans hle)
    rw [rectsFit_emitRun t invert hr, and_iff_left hfits]
    have hrun : r.emitRun o t invert = Runs.run (emitWord o t invert) r t.words := by
      rw [emitRun, if_neg hlit, hguard]
    rw [hrun]
    exact ⟨hwords.1.toRowsDown.mono hn, Iff.rfl⟩

/-! ## Lines of a table -/

/-- One more column. -/
theorem sumCols_succ (n : Nat) (w : Nat → Nat) :
    TableState.sumCols (n + 1) w = TableState.sumCols n w + w n := by
  simp [TableState.sumCols, List.range_succ]

/-- More columns. -/
theorem sumCols_le {w : Nat → Nat} {m n : Nat} (h : m ≤ n) :
    TableState.sumCols m w ≤ TableState.sumCols n w := by
  induction h with
  | refl => exact Nat.le_refl _
  | step _ ih =>
    rw [sumCols_succ]
    exact ih.trans (Nat.le_add_right _ _)

/-- A column is at most as wide as all of them. -/
theorem le_sumCols {w : Nat → Nat} {n c : Nat} (h : c < n) : w c ≤ TableState.sumCols n w := by
  have hle := sumCols_le (w := w) (Nat.succ_le_of_lt h)
  rw [sumCols_succ] at hle
  omega

/-- The columns before one, in pixels. -/
theorem sumCols_pixels (n : Nat) (w : Nat → Nat) :
    TableState.sumCols n (fun k => (w k + gap) * fontAdvance)
      = 6 * TableState.sumCols n w + 6 * n := by
  induction n with
  | zero => rfl
  | succ n ih =>
    rw [sumCols_succ, sumCols_succ, ih]
    simp only [gap, fontAdvance]
    omega

/-- **A column begins far from 2^16**, and not at the margin. -/
theorem columnX_bounds (hr : Ready r) (hn : NarrowColumns r) {c : Nat} (hc : c ≤ r.tableCols) :
    (columnX r.toLayout r.toTableState c).toNat
        = r.leftEdge + TableState.sumCols c (fun k => (r.colW k + gap) * fontAdvance) ∧
      TableState.sumCols c (fun k => (r.colW k + gap) * fontAdvance) ≤ 1224 := by
  have hedge := r.leftEdge_bounds
  have hcols := hr.tableCols_le
  have hsum := sumCols_pixels c r.colW
  have hle := sumCols_le (w := r.colW) hc
  simp only [tColsMax] at hcols
  unfold NarrowColumns at hn
  have hsmall : TableState.sumCols c (fun k => (r.colW k + gap) * fontAdvance) ≤ 1224 := by omega
  refine ⟨?_, hsmall⟩
  rw [columnX, UInt16.toNat_ofNat']
  omega

/-- **A slice fits**, and gets no further down than its column is wide. -/
theorem emitSlice_fits (hr : Ready r) (hn : NarrowColumns r) (row ln : Nat) {c : Nat}
    (hc : c < r.tableCols) :
    RowsDown o (r.colW c) r (r.emitSlice o row ln c) ∧
      (RectsFit (r.emitSlice o row ln c) ↔ RectsFit r) := by
  unfold emitSlice
  split
  · exact ⟨(RowsDown.refl o r).mono (Nat.zero_le _), Iff.rfl⟩
  · have hready : Ready (r.toColumn c) := ⟨hr.clip_eq, hr.ownRowH_le, hr.tableCols_le⟩
    have hedge := r.leftEdge_bounds
    obtain ⟨hx, hsmall⟩ := columnX_bounds hr hn hc.le
    have hcol : r.colW c ≤ 198 := (le_sumCols hc).trans hn
    have hwide : r.colW c * r.advance ≤ 198 * 12 :=
      Nat.mul_le_mul hcol r.advance_bounds.2
    have hle : max (r.toColumn c).x.toNat (r.toColumn c).leftEdge
        + r.colW c * (r.toColumn c).advance ≤ 65535 := by
      show max (columnX r.toLayout r.toTableState c).toNat r.leftEdge + r.colW c * r.advance ≤ 65535
      omega
    obtain ⟨hdown, hfits⟩ := emitRun_of_le (o := o) ((r.cell row c).slice (r.colW c) ln) false
      hready
      rfl (Span.cells_slice_le _ _ _) hle
    exact ⟨⟨OnlyPen.trans (s := r.toColumn c) ⟨rfl, rfl, rfl, rfl⟩ hdown.pen, hdown.row⟩, hfits⟩

/-- **The slices of a line fit**, and get no further down than the table is wide. -/
theorem emitSlices_fits (hr : Ready r) (hn : NarrowColumns r) (row ln : Nat) :
    RowsDown o 198 r (r.emitSlices o row ln) ∧
      (RectsFit (r.emitSlices o row ln) ↔ RectsFit r) := by
  -- after `m` columns no more rows have been begun than those columns are wide
  have hpre : ∀ m ≤ r.tableCols,
      RowsDown o (TableState.sumCols m r.colW) r
          (Runs.run (emitSlice o row ln) r (List.range m)) ∧
        (RectsFit (Runs.run (emitSlice o row ln) r (List.range m)) ↔ RectsFit r) := by
    intro m hm
    induction m with
    | zero => exact ⟨.refl o r, Iff.rfl⟩
    | succ m ih =>
      obtain ⟨hdown, hfits⟩ := ih (Nat.le_of_succ_le hm)
      have htable := hdown.pen.table_eq
      rw [List.range_succ, Runs.run_append, Runs.run_cons, Runs.run_nil, sumCols_succ, ← hfits]
      obtain ⟨hslice, hslicefits⟩ := emitSlice_fits (o := o) (hdown.pen.ready hr)
        (hdown.pen.narrow hn) row ln (htable ▸ hm)
      rw [htable] at hslice
      exact ⟨hdown.trans hslice, hslicefits⟩
  obtain ⟨hdown, hfits⟩ := hpre r.tableCols (Nat.le_refl _)
  exact ⟨hdown.mono hn, hfits⟩

/-- The gutters of a line, at most 198 rows below a visible one. -/
theorem fits_gutterOps {s : PageRenderer} (hr : Ready r) (hn : NarrowColumns r)
    (hv : r.rowVisible = true) (h : RowsDown o 198 r s) :
    ∀ op ∈ gutterOps o r.toTableState s.toLayout s.screenY, Fits op := by
  intro op hop
  obtain ⟨c, hc, rfl⟩ := List.mem_map.mp hop
  rw [List.mem_range] at hc
  obtain ⟨k, hk, hy⟩ := h.row
  refine ⟨?_, ?_⟩
  · -- the rule stands three pixels left of its column
    obtain ⟨hx, hsmall⟩ := columnX_bounds hr hn (show c + 1 ≤ r.tableCols by omega)
    have hcol : columnX s.toLayout r.toTableState (c + 1)
        = columnX r.toLayout r.toTableState (c + 1) := by
      rw [columnX, columnX, h.pen.leftEdge_eq]
    have hone : (1 : UInt16).toNat = 1 := rfl
    have hedge := r.leftEdge_bounds
    have hsix := sumCols_pixels (c + 1) r.colW
    have hle : (4 : UInt16) ≤ columnX r.toLayout r.toTableState (c + 1) := by
      rw [UInt16.le_iff_toNat_le, hx]
      have hfour : (4 : UInt16).toNat = 4 := rfl
      omega
    rw [hcol, UInt16.toNat_sub_of_le _ _ hle, hx, hone]
    omega
  · -- and on the panel, or not far below it
    have hrow : k * (r.rowH o).toNat ≤ 198 * 281 := Nat.mul_le_mul hk (hr.rowH_le o)
    have hscreen : s.screenY = r.screenY + UInt16.ofNat (k * (r.rowH o).toNat) := by
      rw [screenY, screenY, hy, h.pen.window_eq.2]
      grind
    have htop := hr.screenY_lt hv
    have hline := lineH_le o
    have hadd := toNat_add_le r.screenY (UInt16.ofNat (k * (r.rowH o).toNat))
    rw [UInt16.toNat_ofNat'] at hadd
    rw [hscreen]
    omega

/-- **A line of a table fits.** -/
theorem rectsFit_tableLine (hr : Ready r) (hn : NarrowColumns r) (row ln : Nat) :
    RectsFit (r.tableLine o row ln) ↔ RectsFit r := by
  have hdraw : RectsFit (r.drawLine o row ln) ↔ RectsFit r := by
    unfold drawLine
    split
    next hv =>
      obtain ⟨hdown, hfits⟩ := emitSlices_fits (o := o) hr hn row ln
      rw [rectsFit_issue, and_iff_left (fits_gutterOps hr hn hv hdown), hfits]
    next => exact Iff.rfl
  rw [← hdraw]
  exact rectsFit_down .tableLine o.lineH (r.drawLine o row ln)

/-- A rule across the content width fits. -/
theorem fits_rule (l : Layout) (y : UInt16) :
    Fits (.drawHline (UInt16.ofNat l.leftEdge) y (UInt16.ofNat (right - l.leftEdge)) true) := by
  have hedge := l.leftEdge_bounds
  have hright : right = 398 := rfl
  simp only [Fits, UInt16.toNat_ofNat']
  omega

/-- The header rule fits. -/
theorem rectsFit_ruleHeader (row : Nat) (r : PageRenderer) :
    RectsFit (r.ruleHeader row) ↔ RectsFit r := by
  unfold ruleHeader
  split
  · exact rectsFit_paint_of _ r fun _ => by simpa [headerOps] using fits_rule _ _
  · exact Iff.rfl

/-- A row of a table fits. -/
theorem rectsFit_tableRow (hr : Ready r) (hn : NarrowColumns r) (row : Nat) :
    RectsFit (r.tableRow o row) ↔ RectsFit r := by
  rw [tableRow, rectsFit_ruleHeader]
  generalize List.range (r.rowLines row) = lns
  induction lns generalizing r with
  | nil => exact Iff.rfl
  | cons ln lns ih =>
    have hpen := onlyPen_tableLine (o := o) row r ln
    rw [Runs.run_cons, ih (hpen.ready hr) (hpen.narrow hn), rectsFit_tableLine hr hn]

/-- The rows of a table fit. -/
theorem rectsFit_drawTable (hr : Ready r) (hn : NarrowColumns r) :
    RectsFit (r.drawTable o) ↔ RectsFit r := by
  rw [drawTable, rectsFit_down, rectsFit_paint_of _ _ fun _ => by
    simpa [closingOps] using fits_rule _ _]
  generalize List.range r.tRows = rows
  induction rows generalizing r with
  | nil => exact Iff.rfl
  | cons row rows ih =>
    have hpen := onlyPen_tableRow (o := o) r row
    rw [Runs.run_cons, ih (hpen.ready hr) (hpen.narrow hn), rectsFit_tableRow hr hn]

/-! ## The fitted columns -/

/-- Columns of at most the same width. -/
theorem sumCols_le_mul {w : Nat → Nat} {n b : Nat} (h : ∀ c < n, w c ≤ b) :
    TableState.sumCols n w ≤ n * b := by
  induction n with
  | zero => exact Nat.zero_le _
  | succ n ih =>
    rw [sumCols_succ, Nat.succ_mul]
    exact Nat.add_le_add (ih fun c hc => h c (Nat.lt_succ_of_lt hc)) (h n (Nat.lt_succ_self n))

/-- Columns that are narrower, one by one. -/
theorem sumCols_le_sumCols {w v : Nat → Nat} {n : Nat} (h : ∀ c < n, w c ≤ v c) :
    TableState.sumCols n w ≤ TableState.sumCols n v := by
  induction n with
  | zero => exact Nat.le_refl _
  | succ n ih =>
    rw [sumCols_succ, sumCols_succ]
    exact Nat.add_le_add (ih fun c hc => h c (Nat.lt_succ_of_lt hc)) (h n (Nat.lt_succ_self n))

/-- A column past the last does not count. -/
theorem sumCols_update_of_le (w : Nat → Nat) {n i : Nat} (h : n ≤ i) (v : Nat) :
    TableState.sumCols n (Function.update w i v) = TableState.sumCols n w := by
  induction n with
  | zero => rfl
  | succ n ih =>
    rw [sumCols_succ, sumCols_succ, ih (Nat.le_of_succ_le h),
      Function.update_of_ne (Nat.ne_of_lt h)]

/-- One column made wider. -/
theorem sumCols_update_le {w : Nat → Nat} {i v d : Nat} (h : v ≤ w i + d) (n : Nat) :
    TableState.sumCols n (Function.update w i v) ≤ TableState.sumCols n w + d := by
  induction n with
  | zero => exact Nat.zero_le _
  | succ n ih =>
    rw [sumCols_succ, sumCols_succ]
    by_cases hni : n = i
    · subst hni
      rw [sumCols_update_of_le w (Nat.le_refl n), Function.update_self]
      omega
    · rw [Function.update_of_ne hni]
      omega

/-- The gaps between the columns. -/
theorem sumCols_gap (n : Nat) (w : Nat → Nat) :
    TableState.sumCols n (fun c => w c + gap) = TableState.sumCols n w + n := by
  induction n with
  | zero => rfl
  | succ n ih =>
    rw [sumCols_succ, sumCols_succ, ih]
    simp only [gap]
    omega

/-- **The fitted columns of a table are narrow.** -/
theorem sumCols_fit_le {avail : Nat} (havail : avail ≤ 66) {t : TableState}
    (hcols : t.tableCols ≤ tColsMax) :
    TableState.sumCols t.tableCols (t.fit avail).colW ≤ 198 := by
  have hcapped : ∀ c < t.tableCols, t.capped avail c ≤ 33 := by
    intro c hc
    rw [TableState.capped, if_pos hc]
    omega
  have hsix : t.tableCols * 33 ≤ tColsMax * 33 := Nat.mul_le_mul_right 33 hcols
  have hall : tColsMax * 33 = 198 := rfl
  have hnatural := sumCols_gap t.tableCols (t.capped avail)
  simp only [TableState.fit]
  split
  next hscale =>
    obtain ⟨hwide, hsum⟩ := hscale
    rw [hnatural] at hwide
    simp only [TableState.scaleCols, gap, Nat.mul_one]
    generalize hroom : avail - t.tableCols = room
    generalize TableState.sumCols t.tableCols (t.capped avail) = sum at hwide hsum ⊢
    -- the room is less than what the columns take, so no column grows beyond half the width
    have hscaled : ∀ c < t.tableCols, TableState.scaled room sum (t.capped avail c) ≤ 33 := by
      intro c hc
      have hle : t.capped avail c * room / sum ≤ t.capped avail c := by
        refine Nat.div_le_of_le_mul ?_
        rw [Nat.mul_comm]
        exact Nat.mul_le_mul_right _ (by omega)
      exact max_le (by decide) (hle.trans (hcapped c hc))
    have hmod : ∀ c < t.tableCols,
        (if c < t.tableCols then TableState.scaled room sum (t.capped avail c) % 256
          else t.capped avail c) ≤ TableState.scaled room sum (t.capped avail c) := by
      intro c hc
      rw [if_pos hc]
      exact Nat.mod_le _ _
    have hused := sumCols_le_sumCols hmod
    split
    · refine (sumCols_update_le (Nat.mod_le _ _) _).trans ?_
      omega
    · exact (hused.trans (sumCols_le_mul hscaled)).trans (hsix.trans hall.le)
  next => exact (sumCols_le_mul hcapped).trans (hsix.trans hall.le)

/-- The content width has at most 66 cells. -/
theorem tableAvail_le (l : Layout) : tableAvail l ≤ 66 := by
  have hedge := l.leftEdge_bounds
  have hright : right = 398 := rfl
  refine (Nat.mod_le _ _).trans ?_
  rw [hright, fontAdvance]
  omega

/-- **A table fits.** -/
theorem rectsFit_onTableEnd (hr : Ready r) (s : Style) :
    RectsFit (r.onTableEnd o s) ↔ RectsFit r := by
  have hready : Ready (r.setDepth s).fitTable := ⟨hr.clip_eq, hr.ownRowH_le, hr.tableCols_le⟩
  have hnarrow : NarrowColumns (r.setDepth s).fitTable :=
    sumCols_fit_le (tableAvail_le _) hr.tableCols_le
  unfold onTableEnd tableFlush
  split_ifs
  · exact Iff.rfl
  · exact Iff.rfl
  · exact rectsFit_drawTable hready hnarrow

end PageRenderer

end Thicket.Page
