import Thicket.Page.Table

/-! # Two renderers side by side

Whatever is drawn on two renderers is made of a few primitives. A relation between renderers on rows
that are alike, and that the primitives keep when they are done on both sides, is kept by all that
draws a run, a field or a line end. -/

namespace Thicket.Page

open Thicket.Lcd Thicket.Page.Span

/-- Two rows alike, but for `_y`, which only the visibility tests read, `_blank_pending`, which no
line reads, and `_head_rule`, which no line reads before it ends. -/
def SameRow (l m : Layout) : Prop :=
  m = { l with y := m.y, blankPending := m.blankPending, headRule := m.headRule }

namespace SameRow

variable {l m : Layout} (h : SameRow l m) {o : Options}

include h

/-- The pens are the same. -/
theorem x_eq : m.x = l.x := by rw [h]

/-- The rows are open or not together. -/
theorem rowOpen_eq : m.rowOpen = l.rowOpen := by rw [h]

/-- The faces are the same. -/
theorem head_eq : m.head = l.head := by rw [h]

/-- The left edges are the same. -/
theorem leftEdge_eq : m.leftEdge = l.leftEdge := by
  rw [h]
  rfl

/-- The advances are the same. -/
theorem advance_eq : m.advance = l.advance := by
  rw [h]
  rfl

/-- The rows have the same height of their own. -/
theorem ownRowH_eq : m.ownRowH = l.ownRowH := by rw [h]

/-- The heights of the rows are the same. -/
theorem rowH_eq : m.rowH o = l.rowH o := by
  rw [h]
  rfl

/-- The faces carry the same codepoints. -/
theorem faceHas_eq (cp : UInt32) : m.faceHas o cp = l.faceHas o cp := by
  rw [h]
  rfl

end SameRow

/-- A change of the layout that looks at none of them. -/
structure PlainEdit (f : Layout → Layout) : Prop where
  /-- The rest is changed in the same way. -/
  rest_eq : ∀ l b h, f { l with blankPending := b, headRule := h }
    = { f l with
        blankPending := (f { l with blankPending := b, headRule := h }).blankPending
        headRule := (f { l with blankPending := b, headRule := h }).headRule }
  /-- The gap is not changed by the rule. -/
  pending_eq : ∀ l h, (f { l with headRule := h }).blankPending = (f l).blankPending
  /-- Neither the row nor what is on it depends on where it is. -/
  row_eq : ∀ l y, f { l with y := y } = { f l with y := y }

/-- What lines are made of meets a condition. -/
structure AllDrawn (ok : Drawing → Prop) : Prop where
  /-- The mark of a clipped line. -/
  clip : ∀ o invert, ok (clipOps o invert)
  /-- A cell of a preformatted line. -/
  literal : ∀ o invert g, ok (literalOps o invert g)
  /-- A cell of a word that is broken at the margin. -/
  broken : ∀ o invert g, ok (brokenOps o invert g)
  /-- The spaces in front of a word. -/
  lead : ∀ o invert w, ok (leadOps o invert w)
  /-- A cell of a word. -/
  cell : ∀ o invert g, ok (cellOps o invert g)
  /-- A divider. -/
  divider : ∀ ch, ok (PageRenderer.dividerOps ch)
  /-- The bar of a text field. -/
  bar : ∀ o w s, ok (PageRenderer.fieldBarOps o w s)
  /-- A cell of a text field. -/
  fieldCell : ∀ f s vk, ok (PageRenderer.fieldCellOps f s vk)
  /-- A checkbox or a radio button. -/
  box : ∀ f, ok (PageRenderer.boxOps f)
  /-- The rule under a heading. -/
  rule : ∀ o s, ok (PageRenderer.headRuleOps o s)

/-- **A relation that drawing on both sides keeps.** -/
structure Paired (ok : Drawing → Prop) (R : PageRenderer → PageRenderer → Prop) : Prop
    extends AllDrawn ok where
  /-- The rows are alike. -/
  sameRow : ∀ {r s}, R r s → SameRow r.toLayout s.toLayout
  /-- Calls on the driver, each under its own visibility test. -/
  paint : ∀ {r s d}, R r s → ok d → R (r.paint d) (s.paint d)
  /-- A row or a gap. -/
  down : ∀ {r s}, R r s → ∀ a w, R (r.down a w) (s.down a w)
  /-- The layout is changed. -/
  edit : ∀ {r s f}, R r s → PlainEdit f →
    R { r with toLayout := f r.toLayout } { s with toLayout := f s.toLayout }
  /-- A codepoint is counted. -/
  note : ∀ {r s}, R r s → ∀ has cp, R (r.noteUnless has cp) (s.noteUnless has cp)
  /-- A codepoint is counted where the row is visible. -/
  noteVisible : ∀ {r s}, R r s → ∀ has cp,
    R (if r.rowVisible then r.noteUnless has cp else r)
      (if s.rowVisible then s.noteUnless has cp else s)

namespace PageRenderer

/-- On a fresh row the pen of a box is where it was put. -/
theorem drawBox_freshRow (f : Field) (r : PageRenderer) :
    r.freshRow.drawBox f = r.freshRow.paint (boxOps f) := by
  have hidem : r.freshRow.freshRow = r.freshRow := by
    unfold freshRow
    cases r.rowOpen <;> rfl
  rw [drawBox, hidem, paint]

/-- A divider is counted, and then drawn. -/
theorem drawDivider_eq (o : Options) (ch : UInt32) (r : PageRenderer) :
    r.drawDivider o ch
      = (if r.rowVisible then r.noteUnless (glyphFor o.fonts ch).isSome ch else r).paint
          (dividerOps ch) := by
  by_cases hv : r.rowVisible = true
  · have hvis : (r.noteUnless (glyphFor o.fonts ch).isSome ch).rowVisible = true := hv
    rw [drawDivider, if_pos hv, if_pos hv, paint, if_pos hvis]
  · rw [drawDivider, if_neg hv, if_neg hv, paint, if_neg hv]

end PageRenderer

namespace Paired

variable {ok : Drawing → Prop} {R : PageRenderer → PageRenderer → Prop} (h : Paired ok R)
  {r s : PageRenderer} {o : Options}

include h

/-- The pen has drawn a piece. -/
theorem penOver (hrs : R r s) (w : UInt16) : R (r.penOver w) (s.penOver w) :=
  h.edit (f := fun l => { l with x := l.x + w, rowOpen := true }) hrs
    ⟨fun _ _ _ => rfl, fun _ _ => rfl, fun _ _ => rfl⟩

/-- A piece drawn and the pen moved over it. -/
theorem piece (hrs : R r s) {d : Drawing} (hd : ok d) (w : UInt16) :
    R ((r.paint d).penOver w) ((s.paint d).penOver w) :=
  h.penOver (h.paint hrs hd) w

/-- A new line. -/
theorem newline (hrs : R r s) : R (r.newline o) (s.newline o) := by
  have hdown := h.down hrs (.row r.ownRowH) (r.rowH o)
  rw [PageRenderer.newline, PageRenderer.newline, (h.sameRow hrs).rowH_eq,
    (h.sameRow hrs).ownRowH_eq]
  have hedge := h.edit (f := fun l => { l with x := UInt16.ofNat l.leftEdge, rowOpen := false })
    hdown ⟨fun _ _ _ => rfl, fun _ _ => rfl, fun _ _ => rfl⟩
  exact hedge

/-- The break in front of a cell. -/
theorem wrapIfNeeded (hrs : R r s) (w : Nat) : R (r.wrapIfNeeded o w) (s.wrapIfNeeded o w) := by
  rw [PageRenderer.wrapIfNeeded, PageRenderer.wrapIfNeeded, (h.sameRow hrs).leftEdge_eq,
    (h.sameRow hrs).x_eq]
  split
  · exact h.newline hrs
  · exact hrs

/-- A closed row restarts at the left edge. -/
theorem freshRow (hrs : R r s) : R r.freshRow s.freshRow :=
  h.edit (f := fun l => { l with x := if l.rowOpen then l.x else UInt16.ofNat l.leftEdge }) hrs
    ⟨fun _ _ _ => rfl, fun _ _ => rfl, fun _ _ => rfl⟩

/-! ## Runs -/

variable (t : Span) (invert : Bool)

/-- Preformatted cells. -/
theorem emitLiteralFrom (hrs : R r s) (ks : List Nat) :
    R (PageRenderer.emitLiteralFrom o t invert ks r)
      (PageRenderer.emitLiteralFrom o t invert ks s) := by
  induction ks generalizing r s with
  | nil => exact hrs
  | cons k ks ih =>
    rw [PageRenderer.emitLiteralFrom, PageRenderer.emitLiteralFrom, (h.sameRow hrs).x_eq]
    split
    · exact h.edit (f := fun l => { l with rowOpen := true }) (h.paint hrs (h.clip o invert))
        ⟨fun _ _ _ => rfl, fun _ _ => rfl, fun _ _ => rfl⟩
    · exact ih (h.piece (h.note hrs _ _) (h.literal o invert _) _)

/-- A codepoint of the row's face. -/
theorem emitGlyph {d : List UInt8 → Drawing} (hd : ∀ g, ok (d g)) (hrs : R r s) (k : Nat) :
    R (r.emitGlyph o t d k) (s.emitGlyph o t d k) := by
  rw [PageRenderer.emitGlyph, PageRenderer.emitGlyph, (h.sameRow hrs).advance_eq,
    (h.sameRow hrs).faceHas_eq]
  exact h.piece (h.note hrs _ _) (hd _) _

/-- One cell of a word that is broken at the margin. -/
theorem emitBrokenCell (hrs : R r s) (k : Nat) :
    R (r.emitBrokenCell o t invert k) (s.emitBrokenCell o t invert k) := by
  rw [PageRenderer.emitBrokenCell, PageRenderer.emitBrokenCell, (h.sameRow hrs).advance_eq]
  exact h.emitGlyph t (h.broken o invert) (h.wrapIfNeeded hrs _) k

/-- The break in front of a word, or its spaces. -/
theorem breakOrLead (hrs : R r s) (w : Word) :
    R (r.breakOrLead o t invert w) (s.breakOrLead o t invert w) := by
  rw [PageRenderer.breakOrLead, PageRenderer.breakOrLead, (h.sameRow hrs).leftEdge_eq,
    (h.sameRow hrs).advance_eq, (h.sameRow hrs).x_eq]
  split_ifs
  · exact h.newline hrs
  · exact hrs
  · exact h.piece hrs (h.lead o invert _) _

/-- A word. -/
theorem emitWord (hrs : R r s) (w : Word) :
    R (r.emitWord o t invert w) (s.emitWord o t invert w) := by
  rw [PageRenderer.emitWord, PageRenderer.emitWord, (h.sameRow hrs).leftEdge_eq,
    (h.sameRow hrs).advance_eq]
  split
  · exact Runs.run_simulation R (fun _ _ k hrs => h.emitBrokenCell t invert hrs k) hrs _
  · exact Runs.run_simulation R (fun _ _ k hrs => h.emitGlyph t (h.cell o invert) hrs k)
      (h.breakOrLead t invert hrs w) _

/-- **A run.** -/
theorem emitRun (hrs : R r s) : R (r.emitRun o t invert) (s.emitRun o t invert) := by
  have hliteral : s.literal = r.literal := by rw [h.sameRow hrs]
  have hguard : R r.guardIndent s.guardIndent :=
    h.edit (f := fun l => { l with
      x := if l.rowOpen = false ∧ l.x.toNat < l.leftEdge then UInt16.ofNat l.leftEdge else l.x })
      hrs ⟨fun _ _ _ => rfl, fun _ _ => rfl, fun _ _ => rfl⟩
  rw [PageRenderer.emitRun, PageRenderer.emitRun, hliteral]
  split
  · exact h.emitLiteralFrom t invert (h.freshRow hrs) _
  · exact Runs.run_simulation R (fun _ _ w hrs => h.emitWord t invert hrs w) hguard _

/-- A run in the row's inversion. -/
theorem emitHere (hrs : R r s) : R (r.emitHere o t) (s.emitHere o t) := by
  have hinvert : s.invert = r.invert := by rw [h.sameRow hrs]
  rw [PageRenderer.emitHere, PageRenderer.emitHere, hinvert]
  exact h.emitRun t _ hrs

/-! ## Callbacks -/

/-- The section depth. -/
theorem setDepth (hrs : R r s) (st : Style) : R (r.setDepth st) (s.setDepth st) :=
  h.edit (f := fun l => { l with depth := st.depth }) hrs
    ⟨fun _ _ _ => rfl, fun _ _ => rfl, fun _ _ => rfl⟩

/-- The row that a callback draws on. -/
theorem startRow (hrs : R r s) (st : Style) :
    R (r.setDepth st).freshRow (s.setDepth st).freshRow :=
  h.freshRow (h.setDepth hrs st)

/-- `onText`. -/
theorem onText (hrs : R r s) (st : Style) : R (r.onText o t st) (s.onText o t st) :=
  h.emitHere t (h.edit
    (f := fun l => (PageRenderer.openText o t st { r with toLayout := l }).toLayout) hrs
    ⟨fun _ _ _ => rfl, fun _ _ => rfl, fun _ _ => rfl⟩)

/-- `onDivider`. -/
theorem onDivider (hrs : R r s) (ch : UInt32) (st : Style) :
    R (r.onDivider o ch st) (s.onDivider o ch st) := by
  rw [PageRenderer.onDivider, PageRenderer.onDivider, PageRenderer.drawDivider_eq,
    PageRenderer.drawDivider_eq]
  exact h.edit (f := fun l => { l with rowOpen := true })
    (h.paint (h.noteVisible (h.startRow hrs st) _ _) (h.divider ch))
    ⟨fun _ _ _ => rfl, fun _ _ => rfl, fun _ _ => rfl⟩

/-- The cells of a text field. -/
theorem fieldCells (hrs : R r s) (f : Field) (st : Style) (n vk : Nat) :
    R (PageRenderer.fieldCells f st n vk r) (PageRenderer.fieldCells f st n vk s) := by
  induction n generalizing vk r s with
  | zero => exact hrs
  | succ n ih =>
    rw [PageRenderer.fieldCells, PageRenderer.fieldCells, (h.sameRow hrs).x_eq]
    split
    · exact hrs
    · exact ih (h.piece hrs (h.fieldCell f st vk) _) _

/-- `onField`. -/
theorem onField (hrs : R r s) (f : Field) (st : Style) :
    R (r.onField o f st) (s.onField o f st) := by
  have hrow := h.startRow hrs st
  rw [PageRenderer.onField, PageRenderer.onField]
  split
  · exact h.fieldCells (h.paint hrow (h.bar o _ st)) f st _ _
  · have hbox := h.piece hrow (h.box f) (UInt16.ofNat fontAdvance)
    rw [PageRenderer.boxField, PageRenderer.boxField, PageRenderer.drawBox_freshRow,
      PageRenderer.drawBox_freshRow, PageRenderer.boxLabel, PageRenderer.boxLabel]
    split
    · exact hbox
    · exact h.emitHere _ (h.emitHere _ hbox)

/-- `onImage`. -/
theorem onImage (hrs : R r s) (alt url : Span) (st : Style) :
    R (r.onImage o alt url st) (s.onImage o alt url st) :=
  h.emitHere _ (h.emitHere _ (h.setDepth hrs st))

/-- `onLineEnd`, where the rule under a heading is drawn in both or in neither. -/
theorem onLineEnd (hrs : R r s) (hrule : r.rowOpen = true → s.headRule = r.headRule) (st : Style) :
    R (r.onLineEnd o st) (s.onLineEnd o st) := by
  have hdepth := h.setDepth hrs st
  have hdrawn : (s.headRule && s.rowOpen) = (r.headRule && r.rowOpen) := by
    rw [(h.sameRow hrs).rowOpen_eq]
    -- on a closed row no rule is drawn, and the flags may differ
    cases hopen : r.rowOpen with
    | false => rw [Bool.and_false, Bool.and_false]
    | true => rw [hrule hopen]
  have hruled : R ((r.setDepth st).drawHeadRule o st) ((s.setDepth st).drawHeadRule o st) := by
    rw [PageRenderer.drawHeadRule, PageRenderer.drawHeadRule]
    show R (if (r.headRule && r.rowOpen) = true then _ else _)
      (if (s.headRule && s.rowOpen) = true then _ else _)
    rw [hdrawn]
    split
    · exact h.paint hdepth (h.rule o st)
    · exact hdepth
  have hgap (big : Bool) : R ((((r.setDepth st).drawHeadRule o st).newline o).headGap st big)
      ((((s.setDepth st).drawHeadRule o st).newline o).headGap st big) := by
    rw [PageRenderer.headGap, PageRenderer.headGap]
    split
    · exact h.down (h.newline hruled) _ _
    · exact h.newline hruled
  rw [PageRenderer.onLineEnd, PageRenderer.onLineEnd, (h.sameRow hrs).head_eq]
  exact h.edit (f := fun l => { l with
    headRule := false, ownRowH := 0, head := .none, bold := false, invert := false }) (hgap _)
    ⟨fun _ _ _ => rfl, fun _ _ => rfl, fun _ _ => rfl⟩

end Paired

end Thicket.Page
