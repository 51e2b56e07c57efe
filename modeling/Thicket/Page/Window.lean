import Thicket.Page.Paired
import Thicket.Page.Pen

/-! # Scrolling as a window

Two passes over one page: one at a scroll offset, one at offset 0 in which every visibility test
answers true. The first sees the second through a window: it issues the operations of the rows
whose top lies inside, shifted by the offset, and its pen is the same. That holds as long as no
slice of a table cell breaks onto a new row of its own. -/

namespace Thicket.Page

open Thicket.Lcd Thicket.Page.Span

/-! ## The window -/

/-- The operation, moved by the scroll offset. -/
def shiftY (scroll : UInt16) : LcdOp → LcdOp
  | .setPixel x y black => .setPixel x (y - scroll) black
  | .fillRect x y w h black => .fillRect x (y - scroll) w h black
  | .fillDither x y w h level => .fillDither x (y - scroll) w h level
  | .drawHline x y w black => .drawHline x (y - scroll) w black
  | .drawText x y text black => .drawText x (y - scroll) text black
  | .drawTextScaled x y text black scale => .drawTextScaled x (y - scroll) text black scale
  | .drawTextBig x y text black => .drawTextBig x (y - scroll) text black
  | .drawTextBold x y text face black => .drawTextBold x (y - scroll) text face black
  | op => op

/-- The top of a row lies inside the window. -/
def Inside (scroll top : UInt16) : Prop := scroll ≤ top ∧ top.toNat < scroll.toNat + lcdHeight

instance (scroll top : UInt16) : Decidable (Inside scroll top) :=
  inferInstanceAs (Decidable (_ ∧ _))

/-- The operations of a log for the rows inside the window, moved by the scroll offset. -/
def issuedInside (scroll : UInt16) (log : List Entry) : List LcdOp :=
  log.filterMap fun
    | .draw top op => if Inside scroll top then some (shiftY scroll op) else none
    | .down _ => none

/-- **A pass sees the other through the window**: its operations are those of the rows inside, and
its pen is the same. -/
structure WindowOf (scroll : UInt16) (a b : PageRenderer) : Prop where
  /-- The operations. -/
  issued_eq : issued a.log = issuedInside scroll b.log
  /-- `_y`. -/
  y_eq : a.y = b.y
  /-- `_x`. -/
  x_eq : a.x = b.x
  /-- `_row_open`. -/
  rowOpen_eq : a.rowOpen = b.rowOpen
  /-- `content_height`. -/
  height_eq : a.contentHeight = b.contentHeight

/-! ## Drawings -/

/-- A drawing does not look at where the row is, other than to draw there. -/
def Shifts (d : Drawing) : Prop :=
  ∀ scroll l y, (d l y).map (shiftY scroll) = d l (y - scroll)

/-- An offset below the row commutes with the scroll. -/
theorem add_sub_scroll (y h k scroll : UInt16) : y + h - k - scroll = y - scroll + h - k := by
  grind

/-- The background of a run. -/
theorem map_bgOps (o : Options) (l : Layout) (scroll x y w : UInt16) (luma : UInt8) :
    (l.bgOps o x y w luma).map (shiftY scroll) = l.bgOps o x (y - scroll) w luma := by
  unfold Layout.bgOps
  split_ifs <;> rfl

/-- A glyph. -/
theorem shiftY_glyphOp (o : Options) (l : Layout) (scroll x y : UInt16) (g : List UInt8)
    (cp : UInt32) (black : Bool) :
    shiftY scroll (l.glyphOp o x y g cp black) = l.glyphOp o x (y - scroll) g cp black := by
  unfold Layout.glyphOp
  cases l.head with
  | none => dsimp only; split <;> rfl
  | h1 => rfl
  | h2 => rfl
  | h3 => rfl

variable (o : Options) (invert : Bool)

theorem shifts_clipOps : Shifts (clipOps o invert) := fun _ _ _ => rfl

theorem shifts_literalOps (g : List UInt8) : Shifts (literalOps o invert g) := by
  intro scroll l y
  unfold literalOps
  cases invert <;> rfl

theorem shifts_brokenOps (g : List UInt8) : Shifts (brokenOps o invert g) := by
  intro scroll l y
  simp only [brokenOps, List.map_cons, List.map_nil, shiftY_glyphOp]

theorem shifts_underlineOps (w : UInt16) : Shifts (underlineOps o invert w) := by
  intro scroll l y
  unfold underlineOps
  split
  · simp only [List.map_cons, List.map_nil, shiftY, add_sub_scroll]
  · rfl

theorem shifts_leadOps (w : UInt16) : Shifts (leadOps o invert w) := by
  intro scroll l y
  unfold leadOps
  rw [List.map_append, shifts_underlineOps]
  split
  · rw [map_bgOps]
  · rfl

theorem shifts_cellOps (g : List UInt8) : Shifts (cellOps o invert g) := by
  intro scroll l y
  simp only [cellOps, List.map_append, shifts_underlineOps o invert _ scroll l y]
  congr 2
  · split_ifs <;> first | rfl | exact map_bgOps _ _ _ _ _ _ _
  · split_ifs
    · rfl
    · simp only [List.map_cons, List.map_nil, shiftY_glyphOp]

theorem shifts_dividerOps (ch : UInt32) : Shifts (PageRenderer.dividerOps ch) := by
  intro scroll l y
  simp [PageRenderer.dividerOps, shiftY, Function.comp_def]

theorem shifts_fieldBarOps (w : Nat) (s : Style) : Shifts (PageRenderer.fieldBarOps o w s) := by
  intro scroll l y
  simp only [PageRenderer.fieldBarOps]
  split_ifs <;> first | rfl | exact map_bgOps _ _ _ _ _ _ _

theorem shifts_fieldCellOps (f : Field) (s : Style) (vk : Nat) :
    Shifts (PageRenderer.fieldCellOps f s vk) := by
  intro scroll l y
  simp only [PageRenderer.fieldCellOps]
  split_ifs <;> rfl

theorem shifts_boxOps (f : Field) : Shifts (PageRenderer.boxOps f) := by
  intro scroll l y
  simp only [PageRenderer.boxOps]
  split_ifs <;> rfl

theorem shifts_headRuleOps (s : Style) : Shifts (PageRenderer.headRuleOps o s) := by
  intro scroll l y
  simp only [PageRenderer.headRuleOps, List.map_cons, List.map_nil, shiftY, add_sub_scroll]

theorem shifts_gutterOps (t : TableState) : Shifts (PageRenderer.gutterOps o t) := by
  intro scroll l y
  simp [PageRenderer.gutterOps, shiftY, Function.comp_def]

theorem shifts_headerOps : Shifts PageRenderer.headerOps := by
  intro scroll l y
  simp only [PageRenderer.headerOps, List.map_cons, List.map_nil, shiftY]
  rw [show y - 1 - scroll = y - scroll - 1 by grind]

theorem shifts_closingOps : Shifts PageRenderer.closingOps := fun _ _ _ => rfl

/-! ## The simulation -/

@[simp] theorem issuedInside_append (scroll : UInt16) (l m : List Entry) :
    issuedInside scroll (l ++ m) = issuedInside scroll l ++ issuedInside scroll m :=
  List.filterMap_append

/-- Draws for a row inside the window are all there. -/
theorem issuedInside_draws {scroll y : UInt16} (h : Inside scroll y) (ops : List LcdOp) :
    issuedInside scroll (ops.map (.draw y)) = ops.map (shiftY scroll) := by
  simp [issuedInside, List.filterMap_map, h]

/-- Draws for a row outside are all missing. -/
theorem issuedInside_draws_outside {scroll y : UInt16} (h : ¬ Inside scroll y)
    (ops : List LcdOp) : issuedInside scroll (ops.map (.draw y)) = [] := by
  simp [issuedInside, List.filterMap_map, h]

/-- **The relation between the two passes**: one layout, one table, and the operations of the first
are those of the second inside the window. -/
structure Seen (scroll : UInt16) (a b : PageRenderer) : Prop where
  /-- Pen and style. -/
  layout : a.toLayout = b.toLayout
  /-- The table. -/
  table : a.toTableState = b.toTableState
  /-- The first pass looks at its window. -/
  window_left : a.clip = true ∧ a.scroll = scroll
  /-- The second shows everything. -/
  window_right : b.clip = false ∧ b.scroll = 0
  /-- The operations. -/
  issued_eq : issued a.log = issuedInside scroll b.log

namespace Seen

variable {scroll : UInt16} {a b : PageRenderer}

/-- A row of the first pass is visible when it lies inside the window. -/
theorem rowVisible_left (h : Seen scroll a b) : a.rowVisible = decide (Inside scroll b.y) := by
  simp only [PageRenderer.rowVisible, h.window_left, h.layout, Bool.not_true, Bool.false_or]
  exact (Bool.decide_and _ _).symm

/-- Every row of the second pass is visible. -/
theorem rowVisible_right (h : Seen scroll a b) : b.rowVisible = true := by
  simp [PageRenderer.rowVisible, h.window_right]

/-- Code that leaves the windows and the logs alone, and does the same to both layouts and
tables. -/
theorem update (h : Seen scroll a b) (f : Layout → TableState → Layout × TableState)
    {c d : PageRenderer}
    (hc : c = { a with toLayout := (f a.toLayout a.toTableState).1
                       toTableState := (f a.toLayout a.toTableState).2
                       links := c.links, missing := c.missing })
    (hd : d = { b with toLayout := (f b.toLayout b.toTableState).1
                       toTableState := (f b.toLayout b.toTableState).2
                       links := d.links, missing := d.missing }) : Seen scroll c d := by
  rw [hc, hd]
  refine ⟨?_, ?_, h.window_left, h.window_right, h.issued_eq⟩
  · simp only [h.layout, h.table]
  · simp only [h.layout, h.table]

/-- Code that does the same to both layouts. -/
theorem layout_of (h : Seen scroll a b) (f : Layout → Layout) {c d : PageRenderer}
    (hc : c = { a with toLayout := f a.toLayout, links := c.links, missing := c.missing })
    (hd : d = { b with toLayout := f b.toLayout, links := d.links, missing := d.missing }) :
    Seen scroll c d :=
  h.update (fun l t => (f l, t)) hc hd

/-- Calls for a row inside the window. -/
theorem issue_inside (h : Seen scroll a b) (hin : Inside scroll b.y) {d : Drawing}
    (hd : Shifts d) : Seen scroll (a.issue d) (b.issue d) := by
  refine ⟨h.layout, h.table, h.window_left, h.window_right, ?_⟩
  have hops : d a.toLayout a.screenY = (d b.toLayout b.screenY).map (shiftY scroll) := by
    rw [hd, h.layout, PageRenderer.screenY, PageRenderer.screenY, h.layout, h.window_left.2,
      h.window_right.2, UInt16.sub_zero]
  simp only [PageRenderer.issue, issued_append, issued_draws, issuedInside_append,
    issuedInside_draws hin, h.issued_eq, hops]

/-- Calls for a row outside, which the first pass does not make. -/
theorem issue_outside (h : Seen scroll a b) (hout : ¬ Inside scroll b.y) (d : Drawing) :
    Seen scroll a (b.issue d) := by
  refine ⟨h.layout, h.table, h.window_left, h.window_right, ?_⟩
  simp only [PageRenderer.issue, issuedInside_append, issuedInside_draws_outside hout,
    List.append_nil, h.issued_eq]

/-- **Drawing under a visibility test.** -/
theorem paint (h : Seen scroll a b) {d : Drawing} (hd : Shifts d) :
    Seen scroll (a.paint d) (b.paint d) := by
  rw [PageRenderer.paint, PageRenderer.paint, h.rowVisible_left, h.rowVisible_right, if_pos rfl]
  split
  next hin => exact h.issue_inside (of_decide_eq_true hin) hd
  next hout => exact h.issue_outside (fun hin => hout (decide_eq_true hin)) d

/-- A row or a gap. -/
theorem down (h : Seen scroll a b) {e e' : Advance} {k k' : UInt16} (hk : k = k') :
    Seen scroll (a.down e k) (b.down e' k') := by
  subst hk
  refine ⟨?_, h.table, h.window_left, h.window_right, ?_⟩
  · simp only [PageRenderer.down, h.layout]
  · simp only [PageRenderer.down, issued_append, issuedInside_append, h.issued_eq]
    rfl

/-- A branch on what both passes agree about. -/
theorem ite (p q : Prop) [Decidable p] [Decidable q] {c d : PageRenderer} (hpq : p ↔ q)
    (ht : p → Seen scroll a b) (he : ¬ p → Seen scroll c d) :
    Seen scroll (if p then a else c) (if q then b else d) := by
  by_cases hp : p
  · rw [if_pos hp, if_pos (hpq.mp hp)]
    exact ht hp
  · rw [if_neg hp, if_neg (mt hpq.mpr hp)]
    exact he hp

end Seen

namespace PageRenderer

variable {o : Options} {scroll : UInt16} {a b : PageRenderer}

/-- **Drawing keeps the relation.** -/
theorem seen_paired : Paired Shifts (Seen scroll) where
  clip := shifts_clipOps
  literal := shifts_literalOps
  broken := shifts_brokenOps
  lead := shifts_leadOps
  cell := shifts_cellOps
  divider := shifts_dividerOps
  bar := shifts_fieldBarOps
  fieldCell := shifts_fieldCellOps
  box := shifts_boxOps
  rule := shifts_headRuleOps
  sameRow h := by
    rw [h.layout]
    rfl
  paint h hd := h.paint hd
  down h _ _ := h.down rfl
  edit h _ := h.layout_of _ rfl rfl
  note h _ _ := h.layout_of id rfl rfl
  -- a codepoint of a divider is counted in one pass and not in the other
  noteVisible h _ _ := by
    split
    · split
      · exact h.layout_of id rfl rfl
      · exact h.layout_of id rfl rfl
    · split
      · exact h.layout_of id rfl rfl
      · exact h

/-- `onLink`. -/
theorem seen_onLink (h : Seen scroll a b) (label target : Span) (s : Style) :
    Seen scroll (a.onLink o label target s) (b.onLink o label target s) :=
  (seen_paired.emitHere label (seen_paired.startRow h s)).layout_of id rfl rfl

/-- `onPartial`. -/
theorem seen_onPartial (h : Seen scroll a b) (url : Span) (s : Style) :
    Seen scroll (a.onPartial o url s) (b.onPartial o url s) :=
  seen_onLink (seen_paired.emitHere _ (seen_paired.setDepth h s)) url url s

end PageRenderer

/-! ## Slices that stay on their line -/

/-- The pen after a word that stays on its line. -/
def penAfter (t : Span) (adv : Nat) (x : UInt16) (w : Word) : UInt16 :=
  x + leadW adv w + wordW t adv w

/-- Every word of a run stays on the line it begins on. -/
def StaysOnLine (t : Span) (edge adv : Nat) (x : UInt16) : Prop :=
  Runs.Along (penAfter t adv) (fun x w => ¬ TooLong t edge adv w ∧ ¬ Wraps t edge adv x w) x
    t.words

instance (t : Span) (edge adv : Nat) (x : UInt16) : Decidable (StaysOnLine t edge adv x) :=
  inferInstanceAs (Decidable (Runs.Along _ _ _ _))

/-- The slice of a cell stays on its line. -/
def SliceStays (l : Layout) (t : TableState) (row ln c : Nat) : Prop :=
  let p := (t.cell row c).slice (t.colW c) ln
  p.len = 0 ∨ l.literal = true ∨
    StaysOnLine p l.leftEdge l.advance (PageRenderer.columnX l t c)

instance (l : Layout) (t : TableState) (row ln c : Nat) : Decidable (SliceStays l t row ln c) :=
  inferInstanceAs (Decidable (_ ∨ _ ∨ _))

/-- Every slice of a table stays on its line. -/
def TableStays (r : PageRenderer) : Prop :=
  ∀ row < r.tRows, ∀ ln < r.rowLines row, ∀ c < r.tableCols,
    SliceStays r.toLayout r.toTableState row ln c

instance (r : PageRenderer) : Decidable (TableStays r) :=
  inferInstanceAs (Decidable (∀ row < r.tRows, ∀ ln < r.rowLines row, ∀ c < r.tableCols, _))

/-- **A callback is steady** unless it lays out a table with a slice that breaks. -/
def Steady (r : PageRenderer) : Callback → Prop
  | .tableEnd s => TableStays (r.setDepth s).fitTable
  | _ => True

instance (r : PageRenderer) : ∀ c, Decidable (Steady r c)
  | .tableEnd s => inferInstanceAs (Decidable (TableStays (r.setDepth s).fitTable))
  | .blankLine | .text _ _ | .link _ _ _ | .divider _ _ | .field _ _ | .anchor | .lineEnd _
  | .tableBegin _ | .tableRow _ _ | .image _ _ _ | .part _ _ => isTrue trivial

/-- What was drawn was drawn for one row, and the pen is still on it. -/
structure StaysAt (r s : PageRenderer) : Prop where
  /-- The row. -/
  y_eq : s.y = r.y
  /-- What was drawn. -/
  log_eq : ∃ ops : List LcdOp, s.log = r.log ++ ops.map (.draw r.y)

/-- Nothing done. -/
theorem StaysAt.refl (r : PageRenderer) : StaysAt r r := ⟨rfl, [], by simp⟩

/-- One piece after another. -/
theorem StaysAt.trans {r s t : PageRenderer} (h : StaysAt r s) (k : StaysAt s t) :
    StaysAt r t := by
  obtain ⟨ops, hops⟩ := h.log_eq
  obtain ⟨ops', hops'⟩ := k.log_eq
  refine ⟨k.y_eq.trans h.y_eq, ops ++ ops', ?_⟩
  rw [hops', hops, h.y_eq, List.append_assoc, List.map_append]

/-- What leaves the row and the log alone. -/
theorem StaysAt.of_eq {r s : PageRenderer} (hy : s.y = r.y) (hl : s.log = r.log) :
    StaysAt r s :=
  ⟨hy, [], by simp [hl]⟩

namespace PageRenderer

variable {o : Options} (t : Span) (invert : Bool) {scroll : UInt16} {a b : PageRenderer}

/-- Calls. -/
theorem staysAt_issue (d : Drawing) (r : PageRenderer) : StaysAt r (r.issue d) := ⟨rfl, _, rfl⟩

/-- Drawing under a visibility test. -/
theorem staysAt_paint (d : Drawing) (r : PageRenderer) : StaysAt r (r.paint d) := by
  unfold paint
  split
  · exact staysAt_issue d r
  · exact .refl r

/-- A piece drawn and the pen moved over it. -/
theorem staysAt_piece (d : Drawing) (w : UInt16) (r : PageRenderer) :
    StaysAt r ((r.paint d).penOver w) :=
  (staysAt_paint d r).trans (.of_eq rfl rfl)

/-- A codepoint of the row's face. -/
theorem staysAt_emitGlyph (d : List UInt8 → Drawing) (r : PageRenderer) (k : Nat) :
    StaysAt r (r.emitGlyph o t d k) :=
  StaysAt.trans (s := noteUnless _ _ r) (.of_eq rfl rfl) (staysAt_piece _ _ _)

/-- Preformatted text never breaks. -/
theorem staysAt_emitLiteralFrom (ks : List Nat) (r : PageRenderer) :
    StaysAt r (emitLiteralFrom o t invert ks r) := by
  induction ks generalizing r with
  | nil => exact .refl r
  | cons k ks ih =>
    rw [emitLiteralFrom]
    split
    · exact (staysAt_paint _ r).trans (.of_eq rfl rfl)
    · exact StaysAt.trans (s := noteUnless _ _ r) (.of_eq rfl rfl)
        ((staysAt_piece _ _ _).trans (ih _))

/-- **A word that stays on its line**, and the pen after it. -/
theorem staysAt_emitWord {r : PageRenderer} {w : Word} (hlong : ¬ TooLong t r.leftEdge r.advance w)
    (hwrap : ¬ Wraps t r.leftEdge r.advance r.x w) :
    StaysAt r (r.emitWord o t invert w) ∧
      (r.emitWord o t invert w).x = penAfter t r.advance r.x w := by
  have hlead : StaysAt r (r.breakOrLead o t invert w) ∧
      (r.breakOrLead o t invert w).x = r.x + leadW r.advance w := by
    rw [breakOrLead, if_neg hwrap]
    split
    next hzero => exact ⟨.refl r, by rw [hzero, UInt16.add_zero]⟩
    next => exact ⟨staysAt_piece _ _ r, by simp [emitLead, penOver]⟩
  rw [emitWord, if_neg hlong]
  refine ⟨hlead.1.trans (Runs.run_rel StaysAt .refl .trans (staysAt_emitGlyph t _) _ _), ?_⟩
  rw [(emitCells_pen t invert _ _).1, hlead.2, (onlyPen_breakOrLead t invert r w).advance_eq]
  rfl

/-- **A run whose words stay on their line.** -/
theorem staysAt_emitWords {ws : List Word} {r : PageRenderer}
    (h : Runs.Along (penAfter t r.advance) (fun x w => ¬ TooLong t r.leftEdge r.advance w ∧
      ¬ Wraps t r.leftEdge r.advance x w) r.x ws) :
    StaysAt r (Runs.run (emitWord o t invert) r ws) := by
  induction ws generalizing r with
  | nil => exact .refl r
  | cons w ws ih =>
    obtain ⟨⟨hlong, hwrap⟩, hrest⟩ := h
    obtain ⟨hstay, hx⟩ := staysAt_emitWord (o := o) t invert hlong hwrap
    have hpen := onlyPen_emitWord (o := o) t invert r w
    refine hstay.trans (ih ?_)
    rw [hpen.advance_eq, hpen.leftEdge_eq, hx]
    exact hrest

/-- **A slice that stays on its line.** -/
theorem staysAt_emitSlice {r : PageRenderer} {row ln c : Nat}
    (h : SliceStays r.toLayout r.toTableState row ln c) : StaysAt r (r.emitSlice o row ln c) := by
  unfold emitSlice
  split
  · exact .refl r
  next hlen =>
    refine StaysAt.trans (s := r.toColumn c) (.of_eq rfl rfl) ?_
    unfold emitRun
    split
    · exact StaysAt.trans (s := (r.toColumn c).freshRow) (.of_eq rfl rfl)
        (staysAt_emitLiteralFrom _ _ _ _)
    next hlit =>
      obtain hzero | hliteral | hline := h
      · exact absurd hzero hlen
      · exact absurd hliteral hlit
      · have hguard : (r.toColumn c).guardIndent = r.toColumn c := by
          simp [guardIndent, toColumn]
        rw [hguard]
        exact staysAt_emitWords _ _ hline

/-- Whether a slice stays does not depend on the row the pen is on. -/
theorem sliceStays_iff {r s : PageRenderer} (h : OnlyPen r s) (row ln c : Nat) :
    SliceStays s.toLayout s.toTableState row ln c ↔
      SliceStays r.toLayout r.toTableState row ln c := by
  rw [h.table_eq, h.layout_eq]
  rfl

/-- The slices of a line that all stay on it. -/
theorem staysAt_emitSlices {r : PageRenderer} {row ln : Nat}
    (h : ∀ c < r.tableCols, SliceStays r.toLayout r.toTableState row ln c) :
    StaysAt r (r.emitSlices o row ln) := by
  have hcols : ∀ c ∈ List.range r.tableCols, SliceStays r.toLayout r.toTableState row ln c :=
    fun c hc => h c (List.mem_range.mp hc)
  unfold emitSlices
  generalize List.range r.tableCols = cs at hcols
  clear h
  induction cs generalizing r with
  | nil => exact .refl r
  | cons c cs ih =>
    have hpen := onlyPen_emitSlice (o := o) row ln r c
    refine (staysAt_emitSlice (hcols c List.mem_cons_self)).trans (ih fun d hd => ?_)
    exact (sliceStays_iff hpen row ln d).mpr (hcols d (List.mem_cons_of_mem c hd))

/-! ## Tables -/

/-- A slice, in both passes. -/
theorem seen_emitSlice (h : Seen scroll a b) (row ln c : Nat) :
    Seen scroll (a.emitSlice o row ln c) (b.emitSlice o row ln c) := by
  have hslice : (a.cell row c).slice (a.colW c) ln = (b.cell row c).slice (b.colW c) ln := by
    rw [h.table]
  unfold emitSlice
  rw [hslice]
  refine Seen.ite _ _ Iff.rfl (fun _ => h) fun _ => seen_paired.emitRun _ _ ?_
  exact h.update (fun l t => ({ l with x := columnX l t c, rowOpen := true }, t)) rfl rfl

/-- The slices of a line, in both passes. -/
theorem seen_emitSlices (h : Seen scroll a b) (row ln : Nat) :
    Seen scroll (a.emitSlices o row ln) (b.emitSlices o row ln) := by
  have hcols : a.tableCols = b.tableCols := by rw [h.table]
  unfold emitSlices
  rw [hcols]
  exact Runs.run_simulation (Seen scroll) (fun a b c h => seen_emitSlice h row ln c) h _

/-- **A line of a table**: where the first pass does not show it, the second adds nothing inside
the window, and the pen is put below the line in both. -/
theorem seen_tableLine (h : Seen scroll a b) {row ln : Nat}
    (hstay : ∀ c < b.tableCols, SliceStays b.toLayout b.toTableState row ln c) :
    Seen scroll (a.tableLine o row ln) (b.tableLine o row ln) := by
  have hb := staysAt_emitSlices (o := o) hstay
  unfold tableLine drawLine
  rw [h.rowVisible_left, h.rowVisible_right, if_pos rfl]
  split
  next hin =>
    have hin' : Inside scroll (b.emitSlices o row ln).y := by
      rw [hb.y_eq]
      exact of_decide_eq_true hin
    rw [h.table]
    exact (((seen_emitSlices h row ln).issue_inside hin' (shifts_gutterOps o _)).down rfl).layout_of
      (fun l => { l with x := UInt16.ofNat l.leftEdge, rowOpen := false }) rfl rfl
  next hout =>
    have hout' : ¬ Inside scroll b.y := fun hin => hout (decide_eq_true hin)
    have hpen := onlyPen_emitSlices (o := o) row ln b
    obtain ⟨ops, hops⟩ := hb.log_eq
    refine ⟨?_, h.table.trans hpen.table_eq.symm, h.window_left, ?_, ?_⟩
    · simp only [nextTableLine, toLeftEdge, PageRenderer.down, issue]
      rw [hpen.layout_eq, hb.y_eq, h.layout]
      rfl
    · exact ⟨hpen.window_eq.1.trans h.window_right.1, hpen.window_eq.2.trans h.window_right.2⟩
    · have hslices : issuedInside scroll (b.emitSlices o row ln).log
          = issuedInside scroll b.log := by
        rw [hops, issuedInside_append, issuedInside_draws_outside hout', List.append_nil]
      simp only [nextTableLine, toLeftEdge, PageRenderer.down, issue, issued_append,
        issuedInside_append, hslices, hb.y_eq, issuedInside_draws_outside hout', h.issued_eq,
        List.append_nil]
      rfl

/-- A row of a table. -/
theorem seen_tableRow (h : Seen scroll a b) {row : Nat}
    (hstay : ∀ ln < b.rowLines row, ∀ c < b.tableCols,
      SliceStays b.toLayout b.toTableState row ln c) :
    Seen scroll (a.tableRow o row) (b.tableRow o row) := by
  have hrows : a.rowLines row = b.rowLines row := by rw [h.table]
  have hlines : ∀ ln ∈ List.range (b.rowLines row), ∀ c < b.tableCols,
      SliceStays b.toLayout b.toTableState row ln c :=
    fun ln hln => hstay ln (List.mem_range.mp hln)
  have hrun : Seen scroll (Runs.run (tableLine o row) a (List.range (b.rowLines row)))
      (Runs.run (tableLine o row) b (List.range (b.rowLines row))) := by
    generalize List.range (b.rowLines row) = lns at hlines
    clear hstay hrows
    induction lns generalizing a b with
    | nil => exact h
    | cons ln lns ih =>
      refine ih (seen_tableLine h (hlines ln List.mem_cons_self)) fun k hk c hc => ?_
      have hpen := onlyPen_tableLine (o := o) row b ln
      rw [sliceStays_iff hpen]
      rw [hpen.table_eq] at hc
      exact hlines k (List.mem_cons_of_mem ln hk) c hc
  unfold tableRow ruleHeader
  rw [hrows]
  exact Seen.ite _ _ Iff.rfl (fun _ => hrun.paint shifts_headerOps) fun _ => hrun

/-- The rows of a table. -/
theorem seen_drawTable (h : Seen scroll a b) (hstay : TableStays b) :
    Seen scroll (a.drawTable o) (b.drawTable o) := by
  have hrows : a.tRows = b.tRows := by rw [h.table]
  have hall : ∀ row ∈ List.range b.tRows, ∀ ln < b.rowLines row, ∀ c < b.tableCols,
      SliceStays b.toLayout b.toTableState row ln c :=
    fun row hrow => hstay row (List.mem_range.mp hrow)
  have hrun : Seen scroll (Runs.run (tableRow o) a (List.range b.tRows))
      (Runs.run (tableRow o) b (List.range b.tRows)) := by
    generalize List.range b.tRows = rows at hall
    clear hstay hrows
    induction rows generalizing a b with
    | nil => exact h
    | cons row rows ih =>
      refine ih (seen_tableRow h (hall row List.mem_cons_self)) fun k hk ln hln c hc => ?_
      have hpen := onlyPen_tableRow (o := o) b row
      rw [sliceStays_iff hpen]
      rw [hpen.table_eq] at hln hc
      exact hall k (List.mem_cons_of_mem row hk) ln hln c hc
  unfold drawTable
  rw [hrows]
  exact (hrun.paint shifts_closingOps).down rfl

/-- `onTableEnd`. -/
theorem seen_onTableEnd (h : Seen scroll a b) {s : Style}
    (hstay : TableStays (b.setDepth s).fitTable) :
    Seen scroll (a.onTableEnd o s) (b.onTableEnd o s) := by
  have hdepth := seen_paired.setDepth h s
  have hfit : Seen scroll (a.setDepth s).fitTable (b.setDepth s).fitTable :=
    hdepth.update (fun l t => (l, t.fit (tableAvail l))) rfl rfl
  unfold onTableEnd tableFlush
  refine Seen.ite _ _ (by rw [hdepth.table]) (fun _ => hdepth) fun _ => ?_
  refine Seen.ite _ _ (by rw [hdepth.table, hdepth.layout]) (fun _ => hfit) fun _ => ?_
  exact seen_drawTable hfit hstay

/-- **One callback.** -/
theorem seen_step (h : Seen scroll a b) {c : Callback} (hc : Steady b c) :
    Seen scroll (a.step o c) (b.step o c) := by
  cases c with
  | blankLine =>
    refine Seen.ite _ _ (by rw [h.layout]) (fun _ => h) fun _ => ?_
    exact (h.down rfl).layout_of (fun l => { l with blankPending := true }) rfl rfl
  | text t s => exact seen_paired.onText t h s
  | link label target s => exact seen_onLink h label target s
  | divider ch s => exact seen_paired.onDivider h ch s
  | field f s => exact seen_paired.onField h f s
  | anchor => exact h
  | lineEnd s => exact seen_paired.onLineEnd h (fun _ => by rw [h.layout]) s
  | tableBegin s =>
    exact h.update (fun l t => ({ l with depth := s.depth }, t.clear)) rfl rfl
  | tableRow row s =>
    exact h.update (fun l t => ({ l with depth := s.depth }, t.addRow row)) rfl rfl
  | tableEnd s => exact seen_onTableEnd h hc
  | image alt url s => exact seen_paired.onImage h alt url s
  | part url s => exact seen_onPartial h url s

end PageRenderer

/-! ## Whole passes -/

open PageRenderer

variable {scroll : UInt16} {a b : PageRenderer}

/-- Two passes begin alike. -/
theorem seen_begin (scroll : UInt16) (r : PageRenderer) :
    Seen scroll (r.begin scroll) r.beginWhole :=
  ⟨rfl, rfl, ⟨rfl, rfl⟩, ⟨rfl, rfl⟩, rfl⟩

/-- Related passes are a window of each other. -/
theorem Seen.windowOf (h : Seen scroll a b) : WindowOf scroll a b := by
  refine ⟨h.issued_eq, ?_, ?_, ?_, ?_⟩
  all_goals simp only [contentHeight, h.layout]

/-- Whether a callback is steady does not depend on the window. -/
theorem Seen.steady_iff (h : Seen scroll a b) (c : Callback) : Steady a c ↔ Steady b c := by
  cases c with
  | tableEnd s =>
    have hfit : Seen scroll (a.setDepth s).fitTable (b.setDepth s).fitTable :=
      (seen_paired.setDepth h s).update (fun l t => (l, t.fit (tableAvail l))) rfl rfl
    show TableStays _ ↔ TableStays _
    unfold TableStays
    rw [hfit.layout, hfit.table]
  | _ => exact Iff.rfl

/-- **Scrolling is a window** in every pass whose tables have no slice that breaks: after each
callback the operations issued at a scroll offset are those of the whole page inside the window,
shifted, and the pen and the height are the same. -/
theorem scrolling_is_window (o : Options) (r : PageRenderer) (scroll : UInt16) (cs : List Callback)
    (h : Runs.Along (step o) Steady (r.begin scroll) cs) (pre : List Callback) (hp : pre <+: cs) :
    WindowOf scroll (Runs.run (step o) (r.begin scroll) pre)
      (Runs.run (step o) r.beginWhole pre) := by
  have hsim := (h.of_isPrefix hp).simulation id (Seen scroll)
    (fun a b c hab hc => seen_step hab ((hab.steady_iff c).mp hc)) (seen_begin scroll r)
  rw [List.map_id] at hsim
  exact hsim.windowOf

/-- A table of one row. -/
def tableOf (row : List UInt8) : List Callback :=
  [.tableBegin {}, .tableRow (.ofList row) {}, .tableEnd {}]

/-- A table that fits, scrolled half out of the window. -/
theorem scrolling_is_window_sample :
    Runs.Along (step { fonts := Display.blankFonts }) Steady ((fresh fun _ => 0).begin 15)
        (tableOf [0x61, 0x7C, 0x62]) ∧
      WindowOf 15
        (Runs.run (step { fonts := Display.blankFonts }) ((fresh fun _ => 0).begin 15)
          (tableOf [0x61, 0x7C, 0x62]))
        (Runs.run (step { fonts := Display.blankFonts }) (fresh fun _ => 0).beginWhole
          (tableOf [0x61, 0x7C, 0x62])) :=
  ⟨by decide +kernel, scrolling_is_window { fonts := Display.blankFonts } (fresh fun _ => 0) 15
    (tableOf [0x61, 0x7C, 0x62]) (by decide +kernel) _ List.prefix_rfl⟩

/-- Two long cells and four short ones: the columns are fitted to 64 cells with five gutters, and
the last one begins past the margin. -/
def wideRow : List UInt8 :=
  List.replicate 33 0x61 ++ 0x7C :: List.replicate 33 0x61
    ++ [0x7C, 0x62, 0x7C, 0x62, 0x7C, 0x62, 0x7C, 0x62]

/-- Scrolled by one pixel the wide table is a row shorter. -/
theorem wide_table_moves : ¬ WindowOf 1
    (Runs.run (step { fonts := Display.blankFonts }) ((fresh fun _ => 0).begin 1) (tableOf wideRow))
    (Runs.run (step { fonts := Display.blankFonts }) (fresh fun _ => 0).beginWhole
      (tableOf wideRow)) := by
  intro h
  exact absurd h.height_eq (by decide +kernel)

end Thicket.Page
