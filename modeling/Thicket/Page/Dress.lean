import Thicket.Page.Pen

/-! # How a row is dressed

The face, the height, the weight and the rule of a row, and the style of its text, are written by
`onText` and `onLineEnd` alone. What the other callbacks read of them is told apart here. -/

namespace Thicket.Page

open Thicket.Lcd Thicket.Page.Span

/-- The row as it is, dressed like another: its face and height, its weight, and the style of the
text. The rule under a heading stays. -/
def Layout.dress (d l : Layout) : Layout :=
  { l with
    head := d.head, ownRowH := d.ownRowH, bold := d.bold, underline := d.underline
    literal := d.literal, hasBg := d.hasBg, bgLuma := d.bgLuma }

/-- **Two rows in one face**: as high, and with glyphs from the same font. -/
structure SameFace (l m : Layout) : Prop where
  /-- The font. -/
  head_eq : m.head = l.head
  /-- The height. -/
  ownRowH_eq : m.ownRowH = l.ownRowH

/-- The style that only `onText` writes: `_literal`, `_underline`, `_has_bg` and `_bg_luma`. -/
structure SameStyle (l m : Layout) : Prop where
  /-- Preformatted. -/
  literal_eq : m.literal = l.literal
  /-- Underlined. -/
  underline_eq : m.underline = l.underline
  /-- A background. -/
  hasBg_eq : m.hasBg = l.hasBg
  /-- Its luma. -/
  bgLuma_eq : m.bgLuma = l.bgLuma

/-- A row that is dressed like another already. -/
theorem Layout.dress_eq {l m : Layout} (hface : SameFace l m) (hbold : m.bold = l.bold)
    (hstyle : SameStyle l m) : Layout.dress l m = m := by
  obtain ⟨hhead, hrow⟩ := hface
  obtain ⟨hlit, hund, hbg, hluma⟩ := hstyle
  simp [dress, ← hhead, ← hrow, ← hbold, ← hlit, ← hund, ← hbg, ← hluma]

/-- The weight of a row does not change its advance: in one face cells are as wide. -/
theorem Layout.advance_eq {l m : Layout} (h : m.head = l.head) : m.advance = l.advance := by
  rw [advance, advance, h]
  cases l.head with
  | none =>
    have hbold (b : Bool) : (if b = true then boldW .inline else fontAdvance) = fontAdvance := by
      cases b <;> rfl
    show (if m.bold = true then _ else _) = if l.bold = true then _ else _
    rw [hbold, hbold]
  | h1 => rfl
  | h2 => rfl
  | h3 => rfl

/-- A callback that writes neither the dress of the row nor the table. -/
def Callback.keepsDress : Callback → Bool
  | .blankLine | .link .. | .divider .. | .field .. | .anchor | .image .. | .part .. => true
  | _ => false

/-- **A callback that does not read the dress of the row**, but for the height of a text field's
bar. -/
def Callback.Bare : Callback → Prop
  | .blankLine | .anchor | .divider .. => True
  | .field f _ => f.kind = .text ∨ f.label.len = 0
  | _ => False

/-- A text field with a bar behind it. -/
def Callback.ReadsHeight : Callback → Prop
  | .field f s => f.kind = .text ∧ s.hasBg = true
  | _ => False

namespace PageRenderer

variable {o : Options} {r : PageRenderer} {cb : Callback} {d : Layout}

/-- A renderer with its row dressed like another. -/
def dress (d : Layout) (r : PageRenderer) : PageRenderer :=
  { r with toLayout := Layout.dress d r.toLayout }

/-! ## What keeps the dress -/

/-- **The dress of the row and the table stay**: only the pen, the depth and the gap moved. -/
structure KeepsDress (r s : PageRenderer) : Prop where
  /-- The layout. -/
  layout_eq : s.toLayout = { r.toLayout with
    y := s.y, x := s.x, rowOpen := s.rowOpen, depth := s.depth, blankPending := s.blankPending }
  /-- The table. -/
  table_eq : s.toTableState = r.toTableState

/-- One piece after another. -/
theorem KeepsDress.trans {r s u : PageRenderer} (h : KeepsDress r s) (k : KeepsDress s u) :
    KeepsDress r u := by
  refine ⟨?_, k.table_eq.trans h.table_eq⟩
  rw [k.layout_eq, h.layout_eq]

/-- A row that keeps its dress dresses others alike. -/
theorem KeepsDress.dress_eq {r s : PageRenderer} (h : KeepsDress r s) (l : Layout) :
    Layout.dress s.toLayout l = Layout.dress r.toLayout l := by
  rw [h.layout_eq]
  rfl

/-- **Drawing keeps the dress.** -/
theorem frame_keepsDress : Frame o KeepsDress where
  refl _ := ⟨rfl, rfl⟩
  trans := .trans
  issue _ _ h := h.trans ⟨rfl, rfl⟩
  down _ _ _ _ := ⟨rfl, rfl⟩
  pen _ _ _ := ⟨rfl, rfl⟩
  note _ _ _ := ⟨rfl, rfl⟩

/-- **One callback that keeps the dress.** -/
theorem keepsDress_step (h : cb.keepsDress = true) (r : PageRenderer) :
    KeepsDress r (r.step o cb) := by
  have hrow (st : Style) : KeepsDress r ((r.setDepth st).freshRow) := ⟨rfl, rfl⟩
  -- shared by links and parts: a part is its mark and a link to itself
  have hlink (label target : Span) (st : Style) (q : PageRenderer) :
      KeepsDress q (q.onLink o label target st) := by
    have hlabel : KeepsDress ((q.setDepth st).freshRow)
        (((q.setDepth st).freshRow).emitHere o label) := frame_keepsDress.emitRun label _ _
    exact KeepsDress.trans (s := (q.setDepth st).freshRow) ⟨rfl, rfl⟩
      (hlabel.trans ⟨rfl, rfl⟩)
  cases cb with
  | blankLine =>
    show KeepsDress r (r.blankLine o)
    rw [blankLine]
    split
    · exact ⟨rfl, rfl⟩
    · exact ⟨rfl, rfl⟩
  | link label target st => exact hlink label target st r
  | divider ch st =>
    exact (hrow st).trans ((frame_keepsDress.drawDivider ch _).trans ⟨rfl, rfl⟩)
  | field f st =>
    refine (hrow st).trans ?_
    show KeepsDress _ (r.onField o f st)
    rw [onField]
    split
    · exact frame_keepsDress.textField f st _
    · exact frame_keepsDress.boxField f _
  | anchor => exact ⟨rfl, rfl⟩
  | image alt url st =>
    exact KeepsDress.trans (s := r.setDepth st) ⟨rfl, rfl⟩
      ((frame_keepsDress.emitRun _ _ _).trans (frame_keepsDress.emitRun _ _ _))
  | part url st =>
    have hmark : KeepsDress (r.setDepth st)
        ((r.setDepth st).emitHere o (.ofList [0x5B, 0x2B, 0x5D, 0x20])) :=
      frame_keepsDress.emitRun _ _ _
    exact KeepsDress.trans (s := r.setDepth st) ⟨rfl, rfl⟩ (hmark.trans (hlink url url st _))
  | _ => cases h

/-! ## What does not read the dress -/

/-- Drawing in another dress. -/
theorem paint_dress {f : Drawing} (hf : f (Layout.dress d r.toLayout) r.screenY
    = f r.toLayout r.screenY) : (r.dress d).paint f = (r.paint f).dress d := by
  rw [paint, paint]
  show (if r.rowVisible = true then (r.dress d).issue f else r.dress d) = _
  split
  · have hops : f (r.dress d).toLayout (r.dress d).screenY = f r.toLayout r.screenY := hf
    rw [issue, hops]
    rfl
  · rfl

/-- The cells of a text field in another dress. -/
theorem fieldCells_dress (f : Field) (st : Style) (n vk : Nat) (r : PageRenderer) :
    fieldCells f st n vk (r.dress d) = (fieldCells f st n vk r).dress d := by
  induction n generalizing vk r with
  | zero => rfl
  | succ n ih =>
    have hcell : (r.dress d).paint (fieldCellOps f st vk)
        = (r.paint (fieldCellOps f st vk)).dress d :=
      paint_dress rfl
    rw [fieldCells, fieldCells, hcell]
    show (if right < r.x.toNat + fontAdvance then r.dress d
      else fieldCells f st n _ ((((r.paint (fieldCellOps f st vk)).penOver
        (UInt16.ofNat fontAdvance))).dress d)) = _
    split
    · rfl
    · exact ih _ _

/-- The bar of a text field in another dress, if the row is as high. -/
theorem fieldBarOps_dress {l : Layout} {st : Style} (hrow : st.hasBg = true →
    d.ownRowH = l.ownRowH) (w : Nat) (y : UInt16) :
    fieldBarOps o w st (Layout.dress d l) y = fieldBarOps o w st l y := by
  by_cases hbg : st.hasBg = true
  · have hheight : (Layout.dress d l).rowH o = l.rowH o := by
      rw [Layout.rowH, Layout.rowH]
      show (if d.ownRowH = 0 then o.lineH else d.ownRowH) = _
      rw [hrow hbg]
    simp only [fieldBarOps, Layout.bgOps, hheight]
    rfl
  · simp only [fieldBarOps, hbg]
    rfl

/-- **What does not read the dress** does the same in another. -/
theorem step_dress (hbare : cb.Bare) (hrow : cb.ReadsHeight → d.ownRowH = r.ownRowH) :
    (r.dress d).step o cb = (r.step o cb).dress d := by
  cases cb with
  | blankLine =>
    show (r.dress d).blankLine o = (r.blankLine o).dress d
    rw [blankLine, blankLine]
    show (if r.blankPending = true then _ else _) = _
    split <;> rfl
  | anchor => rfl
  | divider ch st =>
    show openRow (drawDivider o ch (((r.setDepth st).freshRow).dress d))
      = (openRow (drawDivider o ch ((r.setDepth st).freshRow))).dress d
    generalize (r.setDepth st).freshRow = q
    rw [drawDivider, drawDivider]
    show openRow (if q.rowVisible = true then _ else _) = _
    split <;> rfl
  | field f st =>
    show onField o f st (r.dress d) = (onField o f st r).dress d
    rw [onField, onField]
    split
    next hkind =>
      show textField o f st (((r.setDepth st).freshRow).dress d) = _
      -- a text field reads the height of the row for its bar, and nothing for its cells
      have hbar (w : Nat) : (((r.setDepth st).freshRow).dress d).paint (fieldBarOps o w st)
          = (((r.setDepth st).freshRow).paint (fieldBarOps o w st)).dress d :=
        paint_dress (fieldBarOps_dress (l := ((r.setDepth st).freshRow).toLayout)
          (fun hbg => hrow ⟨hkind, hbg⟩) w _)
      rw [textField, textField, hbar]
      exact fieldCells_dress f st _ _ _
    next hkind =>
      -- a box without a label emits no run
      have hlabel : f.label.len = 0 := hbare.resolve_left hkind
      show boxField o f (((r.setDepth st).freshRow).dress d)
        = (boxField o f ((r.setDepth st).freshRow)).dress d
      generalize (r.setDepth st).freshRow = q
      rw [boxField, boxField, boxLabel, boxLabel, if_pos hlabel, if_pos hlabel, drawBox, drawBox]
      show penOver _ (if q.rowVisible = true then _ else _) = _
      split <;> rfl
  | _ => exact hbare.elim

/-! ## What writes the dress -/

/-- The pen of a text in another dress. -/
theorem alignedX_dress {t : Span} {st : Style} {l m : Layout} (hpen : m.x = l.x ∧
    m.rowOpen = l.rowOpen ∧ m.depth = l.depth) (hface : m.head = l.head ∨ st.align = .left) :
    alignedX t st.align m = alignedX t st.align l := by
  obtain ⟨hx, hopen, hdepth⟩ := hpen
  have hedge : m.leftEdge = l.leftEdge := by rw [Layout.leftEdge, Layout.leftEdge, hdepth]
  rcases hface with hhead | hleft
  · simp only [alignedX, hx, hopen, hedge, Layout.advance_eq hhead]
  · simp only [alignedX, hleft, hx, ne_eq, not_true_eq_false, false_and, and_false, if_false]

/-- **A text overwrites the dress of the row**: it keeps the face, unless it climbs. -/
theorem step_text_dress {t : Span} {st : Style} (hface : SameFace r.toLayout d ∨
    Climbs o t st r.toLayout ∧ st.align = .left) :
    (r.dress d).step o (.text t st) = r.step o (.text t st) := by
  show ((r.dress d).openText o t st).emitHere o t = (r.openText o t st).emitHere o t
  have hx : alignedX t st.align (((r.dress d).startText st).freshRow).toLayout
      = alignedX t st.align ((r.startText st).freshRow).toLayout :=
    alignedX_dress ⟨rfl, rfl, rfl⟩ (hface.imp (fun h => h.head_eq) fun h => h.2)
  have hopen : (r.dress d).openText o t st = r.openText o t st := by
    rw [openText, openText, alignPen, alignPen, hx]
    -- the ladder keeps the face that the two share, or replaces both
    rcases hface with ⟨hhead, hheight⟩ | ⟨hclimb, -⟩
    · simp only [dress, Layout.dress, hhead, hheight]
      rfl
    · have hladder (q : PageRenderer) (hq : q.rowOpen = r.rowOpen) : climbLadder o t st q
          = { q with
              head := wantedHead st.depth
              ownRowH := UInt16.ofNat (headCellH (wantedHead st.depth) + o.leading.toNat) } := by
        have hclimbs : Climbs o t st q.toLayout := by
          rw [Climbs, hq]
          exact hclimb
        rw [climbLadder, if_pos hclimbs, if_pos hclimbs]
      rw [hladder, hladder] <;> rfl
  rw [hopen]

/-- The end of a line resets the face, the weight and the rule. The style and the table stay. -/
theorem onLineEnd_keeps (st : Style) (r : PageRenderer) :
    (r.onLineEnd o st).toLayout = { r.toLayout with
      y := (r.onLineEnd o st).y, x := (r.onLineEnd o st).x
      rowOpen := (r.onLineEnd o st).rowOpen, depth := (r.onLineEnd o st).depth
      blankPending := (r.onLineEnd o st).blankPending
      headRule := false, ownRowH := 0, head := .none, bold := false, invert := false } ∧
    (r.onLineEnd o st).toTableState = r.toTableState := by
  have hgap : KeepsDress r
      ((((r.setDepth st).drawHeadRule o st).newline o).headGap st (r.head == Head.h1)) :=
    KeepsDress.trans (s := r.setDepth st) ⟨rfl, rfl⟩ (frame_keepsDress.headGap st _ _)
  refine ⟨?_, hgap.table_eq⟩
  rw [onLineEnd]
  generalize (((r.setDepth st).drawHeadRule o st).newline o).headGap st _ = q at hgap
  show { q.toLayout with
    headRule := false, ownRowH := 0, head := .none, bold := false, invert := false } = _
  rw [hgap.layout_eq]
  rfl

/-- **The end of a line** in another style and weight: the weight is reset, and the style stays. -/
theorem onLineEnd_dress (hface : SameFace r.toLayout d) (st : Style) :
    (r.dress d).onLineEnd o st
      = (r.onLineEnd o st).dress { d with head := .none, ownRowH := 0, bold := false } := by
  have hheight (q : PageRenderer) (hq : q.ownRowH = r.ownRowH) :
      (Layout.dress d q.toLayout).rowH o = q.rowH o := by
    rw [Layout.rowH, Layout.rowH, hq, ← hface.ownRowH_eq]
    rfl
  have hrule : ((r.dress d).setDepth st).drawHeadRule o st
      = ((r.setDepth st).drawHeadRule o st).dress d := by
    have hops : headRuleOps o st (Layout.dress d (r.setDepth st).toLayout) (r.setDepth st).screenY
        = headRuleOps o st (r.setDepth st).toLayout (r.setDepth st).screenY := by
      simp only [headRuleOps, hheight (r.setDepth st) rfl]
      rfl
    rw [drawHeadRule, drawHeadRule]
    show (if (r.headRule && r.rowOpen) = true then paint _ ((r.setDepth st).dress d)
      else (r.setDepth st).dress d) = dress d (if (r.headRule && r.rowOpen) = true then _ else _)
    split
    · exact paint_dress hops
    · rfl
  -- the row that ends is as high in both, so the next one begins at the same place
  have hkept : ((r.setDepth st).drawHeadRule o st).ownRowH = r.ownRowH := by
    rw [(frame_keepsDress.drawHeadRule st (r.setDepth st)).layout_eq]
    rfl
  have hline : newline o (((r.dress d).setDepth st).drawHeadRule o st)
      = (newline o ((r.setDepth st).drawHeadRule o st)).dress d := by
    rw [hrule, newline, newline]
    show { (down (.row d.ownRowH)
      ((Layout.dress d ((r.setDepth st).drawHeadRule o st).toLayout).rowH o)
      (((r.setDepth st).drawHeadRule o st).dress d)).toLeftEdge with rowOpen := false } = _
    rw [hheight _ hkept, hface.ownRowH_eq, ← hkept]
    rfl
  have hhead : (r.dress d).head = r.head := hface.head_eq
  rw [onLineEnd, onLineEnd, hline, hhead, headGap, headGap]
  split
  · rfl
  · rfl

end PageRenderer

end Thicket.Page
