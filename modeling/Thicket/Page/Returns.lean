import Thicket.Page.Pen

/-! # Which rectangles return

`fill_rect` and `draw_hline` count with 16 bits: they return when the far edges fit, and never
otherwise. For every piece of the emission, the rectangles it issues all fit exactly when the pen
meets a condition before the piece. -/

namespace Thicket.Page

open Thicket.Lcd Thicket.Page.Span

/-! ## Rectangles that fit -/

/-- The far edges of a rectangle are 16-bit numbers. -/
def Fits : LcdOp → Prop
  | .fillRect x y w h _ => x.toNat + w.toNat ≤ 65535 ∧ y.toNat + h.toNat ≤ 65535
  | .drawHline x _ w _ => x.toNat + w.toNat ≤ 65535
  | _ => True

instance : ∀ op, Decidable (Fits op)
  | .fillRect _ _ _ _ _ => inferInstanceAs (Decidable (_ ∧ _))
  | .drawHline _ _ _ _ => inferInstanceAs (Decidable (_ ≤ _))
  | .setPixel _ _ _ | .fillDither _ _ _ _ _ | .drawText _ _ _ _ | .drawTextScaled _ _ _ _ _
  | .drawTextBig _ _ _ _ | .drawTextBold _ _ _ _ _ | .fillWhite | .clear | .toggleVcom
  | .flush => isTrue trivial

/-- **An operation whose rectangle fits returns**, on every display. -/
theorem isSome_exec_of_fits (F : Fonts) (d : Display) {op : LcdOp} (h : Fits op) :
    (Display.exec F d op).isSome := by
  cases op with
  | fillRect x y w h' black =>
    have hrow (yy : UInt16) (s : SharpLcd) :
        (forU16 x (x.toNat + w.toNat) (fun xx s => some (s.setPixel xx yy black)) s).isSome :=
      (forU16_isSome_iff (fun _ _ => rfl) x s).mpr h.1
    simpa [Display.exec, SharpLcd.fillRect] using (forU16_isSome_iff hrow y d.lcd).mpr h.2
  | drawHline x y w black =>
    simpa [Display.exec, SharpLcd.drawHline] using
      (forU16_isSome_iff (fun _ _ => rfl) x d.lcd).mpr h
  | fillDither x y w h' level =>
    simp only [Display.exec, SharpLcd.fillDither, Option.isSome_map]
    split
    · rfl
    · refine (forU16_isSome_iff (fun yy s => ?_) y d.lcd).mpr ?_
      · exact (forU16_isSome_iff (fun _ _ => rfl) x s).mpr ((min_le_right _ _).trans (by decide))
      · exact (min_le_right _ _).trans (by decide)
  | _ => rfl

/-- Operations whose rectangles fit all return, one after the other. -/
theorem isSome_execAll_of_fits (F : Fonts) (d : Display) {ops : List LcdOp}
    (h : ∀ op ∈ ops, Fits op) : (Display.execAll F d ops).isSome := by
  unfold Display.execAll
  induction ops generalizing d with
  | nil => rfl
  | cons op ops ih =>
    obtain ⟨e, he⟩ := Option.isSome_iff_exists.mp
      (isSome_exec_of_fits F d (h op List.mem_cons_self))
    rw [List.foldlM_cons, he]
    exact ih e fun op hop => h op (List.mem_cons_of_mem _ hop)

/-- **A rectangle that does not fit across never returns**, if it has a row. -/
theorem exec_fillRect_eq_none (F : Fonts) (d : Display) {x y w h : UInt16} (black : Bool)
    (hx : 65535 < x.toNat + w.toNat) (hh : 0 < h.toNat) :
    Display.exec F d (.fillRect x y w h black) = none := by
  -- the counter of the inner loop wraps before it reaches the far edge
  have hnone : d.lcd.fillRect x y w h black = none := by
    refine forU16_eq_none (fun yy s => ?_) (by omega) d.lcd
    exact forUpTo_eq_none (by omega) 65536 x s
  rw [Display.exec, hnone]
  rfl

/-- An operation that never returns stops all that come after it. -/
theorem execAll_eq_none {F : Fonts} {op : LcdOp} (hop : ∀ e, Display.exec F e op = none)
    {ops : List LcdOp} (hmem : op ∈ ops) (d : Display) : Display.execAll F d ops = none := by
  unfold Display.execAll
  induction ops generalizing d with
  | nil => cases hmem
  | cons first ops ih =>
    rw [List.foldlM_cons]
    obtain rfl | hrest := List.mem_cons.mp hmem
    · rw [hop d]
      rfl
    · cases Display.exec F d first with
      | none => rfl
      | some e => exact ih hrest e

/-- Every rectangle that was issued fits. -/
def RectsFit (r : PageRenderer) : Prop := ∀ op ∈ issued r.log, Fits op

/-! ## Primitives -/

/-- What holds between two callbacks: the window is looked at, a heading is at most as high as the
big face with the most leading, and a table has at most `T_COLS` columns. -/
structure Ready (r : PageRenderer) : Prop where
  /-- The window. -/
  clip_eq : r.clip = true
  /-- The row. -/
  ownRowH_le : r.ownRowH.toNat ≤ 281
  /-- The table. -/
  tableCols_le : r.tableCols ≤ tColsMax

variable {o : Options} {r : PageRenderer}

/-- A body row is lower than that. -/
theorem lineH_le (o : Options) : o.lineH.toNat ≤ 268 := by
  have hlead := o.leading.toNat_lt
  rw [Options.lineH, UInt16.toNat_ofNat']
  simp only [lineHeight]
  omega

/-- So is every row. -/
theorem Ready.rowH_le (h : Ready r) (o : Options) : (r.rowH o).toNat ≤ 281 := by
  unfold Layout.rowH
  split
  · exact (lineH_le o).trans (by decide)
  · exact h.ownRowH_le

/-- A visible row is on the panel. -/
theorem Ready.screenY_lt (h : Ready r) (hv : r.rowVisible = true) : r.screenY.toNat < 240 := by
  simp only [PageRenderer.rowVisible, h.clip_eq, Bool.not_true, Bool.false_or, Bool.and_eq_true,
    decide_eq_true_eq] at hv
  obtain ⟨hle, hlt⟩ := hv
  rw [PageRenderer.screenY, UInt16.toNat_sub_of_le _ _ hle]
  rw [UInt16.le_iff_toNat_le] at hle
  simp only [lcdHeight] at hlt
  omega

/-- Emitting keeps it. -/
theorem OnlyPen.ready {s : PageRenderer} (h : OnlyPen r s) (hr : Ready r) : Ready s := by
  refine ⟨h.window_eq.1.trans hr.clip_eq, ?_, ?_⟩
  · rw [h.layout_eq]
    exact hr.ownRowH_le
  · rw [h.table_eq]
    exact hr.tableCols_le

/-- A row high rectangle on a visible row fits when it fits across. -/
theorem Ready.fits_fillRect (h : Ready r) (hv : r.rowVisible = true) (x w : UInt16)
    (black : Bool) : Fits (.fillRect x r.screenY w (r.rowH o) black) ↔
      x.toNat + w.toNat ≤ 65535 := by
  have hy := h.screenY_lt hv
  have hrow := h.rowH_le o
  exact ⟨And.left, fun hx => ⟨hx, by omega⟩⟩

namespace PageRenderer

/-- Drawing adds what is drawn. -/
theorem rectsFit_issue (d : Drawing) (r : PageRenderer) :
    RectsFit (r.issue d) ↔ RectsFit r ∧ ∀ op ∈ d r.toLayout r.screenY, Fits op := by
  simp only [RectsFit, issue, issued_append, issued_draws, List.mem_append, or_imp, forall_and]

/-- Drawing under a visibility test. -/
theorem rectsFit_paint (d : Drawing) (r : PageRenderer) : RectsFit (r.paint d) ↔
    RectsFit r ∧ (r.rowVisible = true → ∀ op ∈ d r.toLayout r.screenY, Fits op) := by
  unfold paint
  split
  next hv => rw [rectsFit_issue, eq_true hv, true_imp_iff]
  next hv => simp [hv]

/-- Drawings that always fit. -/
theorem rectsFit_paint_of (d : Drawing) (r : PageRenderer)
    (h : r.rowVisible = true → ∀ op ∈ d r.toLayout r.screenY, Fits op) :
    RectsFit (r.paint d) ↔ RectsFit r := by
  rw [rectsFit_paint, and_iff_left h]

/-- A row adds no rectangle. -/
@[simp] theorem rectsFit_down (a : Advance) (h : UInt16) (r : PageRenderer) :
    RectsFit (r.down a h) ↔ RectsFit r := by
  simp [RectsFit, down, issued]

/-- A new line adds no rectangle. -/
theorem rectsFit_newline (r : PageRenderer) : RectsFit (r.newline o) ↔ RectsFit r :=
  rectsFit_down _ (r.rowH o) r

end PageRenderer

/-! ## Cells and leads -/

/-- A cell of a word fills a rectangle or underlines itself. -/
def CellPaints (l : Layout) (invert : Bool) : Prop :=
  l.hasBg = true ∨ invert = true ∨ l.underline = true

instance (l : Layout) (invert : Bool) : Decidable (CellPaints l invert) :=
  inferInstanceAs (Decidable (_ ∨ _))

/-- The spaces in front of a word fill a rectangle or are underlined. -/
def LeadPaints (o : Options) (l : Layout) : Prop :=
  (l.hasBg = true ∧ o.dither = false ∧ l.bgLuma < 128) ∨ l.underline = true

instance (o : Options) (l : Layout) : Decidable (LeadPaints o l) :=
  inferInstanceAs (Decidable (_ ∨ _))

/-- A glyph is no rectangle. -/
theorem fits_glyphOp (l : Layout) (x y : UInt16) (g : List UInt8) (cp : UInt32) (black : Bool) :
    Fits (l.glyphOp o x y g cp black) := by
  unfold Layout.glyphOp
  cases l.head with
  | none => dsimp only; split <;> trivial
  | h1 => trivial
  | h2 => trivial
  | h3 => trivial

/-- An advance is a 16-bit number. -/
@[simp] theorem advance_mod (l : Layout) : l.advance % 65536 = l.advance := by
  have hadv := l.advance_bounds
  exact Nat.mod_eq_of_lt (by omega)

/-- The background of a run fits across, or is dithered. -/
theorem Ready.fits_bgOps (h : Ready r) (hv : r.rowVisible = true) (x w : UInt16) (luma : UInt8) :
    (∀ op ∈ r.bgOps o x r.screenY w luma, Fits op) ↔
      (o.dither = false ∧ luma < 128 → x.toNat + w.toNat ≤ 65535) := by
  unfold Layout.bgOps
  split_ifs with hdither hluma
  · simp [Fits, hdither]
  · simp [h.fits_fillRect hv, hdither, hluma]
  · simp [hluma]

/-- The underline fits across. -/
theorem fits_underlineOps (l : Layout) (invert : Bool) (y w : UInt16) :
    (∀ op ∈ underlineOps o invert w l y, Fits op) ↔
      (l.underline = true → l.x.toNat + w.toNat ≤ 65535) := by
  unfold underlineOps
  split
  next hu => simp [Fits, hu]
  next hu => simp [hu]

/-- **The spaces in front of a word** fit when they end within 16 bits. -/
theorem Ready.fits_leadOps (h : Ready r) (hv : r.rowVisible = true) (invert : Bool) (w : UInt16) :
    (∀ op ∈ leadOps o invert w r.toLayout r.screenY, Fits op) ↔
      (LeadPaints o r.toLayout → r.x.toNat + w.toNat ≤ 65535) := by
  simp only [leadOps, List.mem_append, or_imp, forall_and, fits_underlineOps, LeadPaints]
  refine and_congr_left fun _ => ?_
  split
  next hbg => rw [h.fits_bgOps hv, eq_true hbg, true_and]
  next hbg => simp [hbg]

/-- **A cell of a word** fits when it ends within 16 bits. -/
theorem Ready.fits_cellOps (h : Ready r) (hv : r.rowVisible = true) (invert : Bool)
    {g : List UInt8} (hg : isBlank g = false) :
    (∀ op ∈ cellOps o invert g r.toLayout r.screenY, Fits op) ↔
      (CellPaints r.toLayout invert → r.x.toNat + r.advance ≤ 65535) := by
  simp only [cellOps, hg, List.mem_append, or_imp, forall_and, fits_underlineOps, CellPaints,
    toNat_advance, Bool.false_eq_true, if_false, List.mem_singleton, forall_eq, fits_glyphOp,
    and_true]
  rw [← and_assoc]
  refine and_congr_left fun _ => ?_
  by_cases hbg : r.hasBg = true <;> by_cases hi : invert = true <;>
    simp [hbg, hi, h.fits_fillRect hv]

/-! ## Preformatted text -/

namespace PageRenderer

variable (t : Span) (invert : Bool)

/-- **Preformatted text always fits**: it ends at the margin. -/
theorem rectsFit_emitLiteralFrom (hr : Ready r) (ks : List Nat) :
    RectsFit (emitLiteralFrom o t invert ks r) ↔ RectsFit r := by
  induction ks generalizing r with
  | nil => exact Iff.rfl
  | cons k ks ih =>
    rw [emitLiteralFrom]
    split
    · -- the mark stands in the last column
      refine rectsFit_paint_of _ r fun hv => ?_
      simp only [clipOps, List.mem_cons, List.not_mem_nil, or_false, forall_eq_or_imp, forall_eq,
        Fits, and_true]
      exact (hr.fits_fillRect hv _ _ invert).mpr (by decide)
    next hx =>
      have hnote : Ready (r.noteUnless (glyphFor o.fonts (codepointOf (t.glyph k))).isSome
          (codepointOf (t.glyph k))) := ⟨hr.clip_eq, hr.ownRowH_le, hr.tableCols_le⟩
      have hcell : OnlyPen r (r.emitLiteralCell o t invert k) :=
        OnlyPen.trans (s := noteUnless _ _ r) ⟨rfl, rfl, rfl, rfl⟩ (onlyPen_piece _ _ _)
      rw [ih (hcell.ready hr)]
      refine rectsFit_paint_of _ _ fun hv => ?_
      simp only [literalOps, List.mem_append, List.mem_singleton, or_imp, forall_and, forall_eq,
        Fits, and_true]
      split
      · simp only [List.mem_singleton, forall_eq]
        refine (hnote.fits_fillRect hv _ _ true).mpr ?_
        have hw : (UInt16.ofNat fontAdvance).toNat = fontAdvance := rfl
        have hright : right = 398 := rfl
        rw [hw]
        exact (Nat.not_lt.mp hx).trans (by omega)
      · simp

/-- **Preformatted text always fits.** -/
theorem rectsFit_emitLiteral (hr : Ready r) :
    RectsFit (r.emitLiteral o t invert) ↔ RectsFit r :=
  rectsFit_emitLiteralFrom (r := r.freshRow) t invert ⟨hr.clip_eq, hr.ownRowH_le, hr.tableCols_le⟩ _

/-! ## Prose -/

/-- A codepoint of the row's face. -/
theorem rectsFit_emitGlyph (d : List UInt8 → Drawing) (r : PageRenderer) (k : Nat) :
    RectsFit (r.emitGlyph o t d k) ↔ RectsFit r ∧ (r.rowVisible = true →
      ∀ op ∈ d (t.glyph k) r.toLayout r.screenY, Fits op) :=
  rectsFit_paint _ _

/-- A word that is broken at the margin issues no rectangle. -/
theorem rectsFit_emitBroken (ks : List Nat) (r : PageRenderer) :
    RectsFit (Runs.run (emitBrokenCell o t invert) r ks) ↔ RectsFit r := by
  induction ks generalizing r with
  | nil => exact Iff.rfl
  | cons k ks ih =>
    rw [Runs.run_cons, ih]
    have hwrap : RectsFit (r.wrapIfNeeded o r.advance) ↔ RectsFit r := by
      unfold wrapIfNeeded
      split
      · exact rectsFit_newline r
      · exact Iff.rfl
    rw [emitBrokenCell, rectsFit_emitGlyph, hwrap]
    refine and_iff_left fun _ => ?_
    simp only [brokenOps, List.mem_singleton, forall_eq, fits_glyphOp]

/-- A sequence that does not begin with a space is not blank. -/
theorem isBlank_glyph {k : Nat} (h : isSpace (t.byte k) = false) :
    isBlank (t.glyph k) = false := by
  obtain ⟨n, hn⟩ : ∃ n, t.seqLenAt k = n + 1 := ⟨t.seqLenAt k - 1, by
    have hpos := t.seqLenAt_pos k
    omega⟩
  simp [isBlank, glyph, hn, List.range_succ_eq_map, peek, h]

/-- **The cells of a word** fit when the last one ends within 16 bits. -/
theorem rectsFit_emitCells (hr : Ready r) {ks : List Nat}
    (hks : ∀ k ∈ ks, isSpace (t.byte k) = false) :
    RectsFit (Runs.run (emitCell o t invert) r ks) ↔ RectsFit r ∧
      (r.rowVisible = true → CellPaints r.toLayout invert →
        r.x.toNat + ks.length * r.advance ≤ 65535) := by
  induction ks generalizing r with
  | nil =>
    have hx := r.x.toNat_lt
    simp only [Runs.run_nil, List.length_nil, Nat.zero_mul, Nat.add_zero]
    exact (and_iff_left fun _ _ => by omega).symm
  | cons k ks ih =>
    have hcell : (r.emitCell o t invert k).toLayout
        = { r.toLayout with x := r.x + UInt16.ofNat r.advance, rowOpen := true } :=
      toLayout_emitGlyph t _ r k
    have hpen : OnlyPen r (r.emitCell o t invert k) := onlyPen_emitGlyph t _ r k
    have hvis : (r.emitCell o t invert k).rowVisible = r.rowVisible := by
      simp only [rowVisible, hcell, hpen.window_eq]
    -- a cell changes the pen alone: the next one is on the same row, in the same style
    have hpaints : CellPaints (r.emitCell o t invert k).toLayout invert ↔
        CellPaints r.toLayout invert := by
      rw [hcell]
      exact Iff.rfl
    rw [Runs.run_cons, ih (hpen.ready hr) fun j hj => hks j (List.mem_cons_of_mem k hj), hvis,
      hpaints, hpen.advance_eq, emitCell, rectsFit_emitGlyph, and_assoc]
    refine and_congr_right fun _ => ?_
    by_cases hv : r.rowVisible = true
    · rw [hr.fits_cellOps hv invert (isBlank_glyph t (hks k List.mem_cons_self))]
      have hx : (r.emitGlyph o t (cellOps o invert) k).x.toNat
          = (r.x.toNat + r.advance) % 65536 := by
        rw [toLayout_emitGlyph, UInt16.toNat_add, toNat_advance]
      simp only [hv, true_imp_iff, List.length_cons, ← forall_and]
      -- if this cell ends within 16 bits, the pen has not wrapped when the next one begins
      refine forall_congr' fun _ => ?_
      rw [hx, Nat.succ_mul]
      omega
    · simp [hv]

/-- **The condition of a word**: the spaces in front of it, where they paint, end within 16 bits,
and so do its cells, where they paint, on the row they come to lie on. -/
def WordFits (o : Options) (t : Span) (invert : Bool) (r : PageRenderer) (w : Word) : Prop :=
  TooLong t r.leftEdge r.advance w ∨
    (¬ Wraps t r.leftEdge r.advance r.x w → r.rowVisible = true → LeadPaints o r.toLayout →
      r.x.toNat + (leadW r.advance w).toNat ≤ 65535) ∧
    ((r.breakOrLead o t invert w).rowVisible = true → CellPaints r.toLayout invert →
      (r.breakOrLead o t invert w).x.toNat + t.cells w.sp w.w * r.advance ≤ 65535)

instance (r : PageRenderer) (w : Word) : Decidable (WordFits o t invert r w) :=
  inferInstanceAs (Decidable (_ ∨ _ ∧ _))

/-- The break in front of a word, or its spaces. -/
theorem rectsFit_breakOrLead (hr : Ready r) (w : Word) :
    RectsFit (r.breakOrLead o t invert w) ↔ RectsFit r ∧
      (¬ Wraps t r.leftEdge r.advance r.x w → r.rowVisible = true → LeadPaints o r.toLayout →
        r.x.toNat + (leadW r.advance w).toNat ≤ 65535) := by
  unfold breakOrLead
  split
  next hwrap =>
    rw [rectsFit_newline]
    exact (and_iff_left fun hno => absurd hwrap hno).symm
  next hwrap =>
    split
    next hzero =>
      have hx := r.x.toNat_lt
      rw [hzero]
      exact (and_iff_left fun _ _ _ => by simp only [UInt16.toNat_zero]; omega).symm
    next =>
      have hpaint := rectsFit_paint (leadOps o invert (leadW r.advance w)) r
      refine Iff.trans hpaint (and_congr_right fun _ => ?_)
      simp only [hwrap, not_false_iff, true_imp_iff]
      exact forall_congr' fun hv => hr.fits_leadOps hv invert _

/-- **A word**: its rectangles fit exactly under its condition. -/
theorem rectsFit_emitWord (hr : Ready r) (i : Nat) :
    RectsFit (r.emitWord o t invert (t.wordAt i)) ↔
      RectsFit r ∧ WordFits o t invert r (t.wordAt i) := by
  unfold emitWord WordFits
  split
  next hlong =>
    rw [rectsFit_emitBroken]
    exact (and_iff_left (Or.inl hlong)).symm
  next hlong =>
    have hpen := onlyPen_breakOrLead (o := o) t invert r (t.wordAt i)
    have hpaints : CellPaints (r.breakOrLead o t invert (t.wordAt i)).toLayout invert ↔
        CellPaints r.toLayout invert := by
      rw [hpen.layout_eq]
      exact Iff.rfl
    rw [rectsFit_emitCells t invert (hpen.ready hr) fun k hk => t.not_isSpace_of_mem_steps hk,
      rectsFit_breakOrLead t invert hr, hpaints, hpen.advance_eq, and_assoc, or_iff_right hlong]
    rfl

/-- The words of a run. -/
theorem rectsFit_emitWords (hr : Ready r) {ws : List Word} (hws : ∀ w ∈ ws, w = t.wordAt w.i) :
    RectsFit (Runs.run (emitWord o t invert) r ws) ↔
      RectsFit r ∧ Runs.Along (emitWord o t invert) (WordFits o t invert) r ws := by
  induction ws generalizing r with
  | nil => simp
  | cons w ws ih =>
    have hword := rectsFit_emitWord (o := o) t invert hr w.i
    rw [← hws w List.mem_cons_self] at hword
    rw [Runs.run_cons, ih ((onlyPen_emitWord t invert r w).ready hr)
      fun v hv => hws v (List.mem_cons_of_mem w hv), hword, Runs.along_cons, and_assoc]

/-- **The condition of a run**: it is preformatted, or every word meets its condition. -/
def RunFits (o : Options) (t : Span) (invert : Bool) (r : PageRenderer) : Prop :=
  r.literal = true ∨ Runs.Along (emitWord o t invert) (WordFits o t invert) r.guardIndent t.words

instance (r : PageRenderer) : Decidable (RunFits o t invert r) :=
  inferInstanceAs (Decidable (_ ∨ _))

/-- **A run**: its rectangles fit exactly under its condition. -/
theorem rectsFit_emitRun (hr : Ready r) :
    RectsFit (r.emitRun o t invert) ↔ RectsFit r ∧ RunFits o t invert r := by
  unfold emitRun RunFits
  split
  next hlit =>
    rw [rectsFit_emitLiteral t invert hr]
    exact (and_iff_left (Or.inl hlit)).symm
  next hlit =>
    rw [rectsFit_emitWords (r := r.guardIndent) t invert
      ⟨hr.clip_eq, hr.ownRowH_le, hr.tableCols_le⟩
      fun w hw => (t.eq_wordAt_of_mem_words hw).1, or_iff_right hlit]
    exact Iff.rfl

end PageRenderer

end Thicket.Page
