import Thicket.Page.Emit

/-! # The callbacks of a line

`onText`, `onLink`, `onDivider`, `onField`, `onAnchor`, `onLineEnd`, `onImage` and `onPartial`. -/

namespace Thicket.Page

open Thicket.Lcd Thicket.Page.Span

/-- `micron::FieldKind`. -/
inductive FieldKind where
  /-- `Text`. -/
  | text
  /-- `Checkbox`. -/
  | checkbox
  /-- `Radio`. -/
  | radio
  deriving DecidableEq, Repr

/-- `micron::Field`. -/
structure Field where
  /-- `kind`. -/
  kind : FieldKind
  /-- `width`. -/
  width : UInt8 := 0
  /-- `masked`. -/
  masked : Bool := false
  /-- `prechecked`. -/
  prechecked : Bool := false
  /-- `value`, `value_len`. -/
  value : Span := .ofList []
  /-- `label`, `label_len`. -/
  label : Span := .ofList []

namespace PageRenderer

variable (o : Options)

/-- `_depth = s.depth`. -/
def setDepth (s : Style) (r : PageRenderer) : PageRenderer := { r with depth := s.depth }

/-- `_row_open = true`. -/
def openRow (r : PageRenderer) : PageRenderer := { r with rowOpen := true }

/-- `emit_run(t, n, _invert)`. -/
def emitHere (t : Span) (r : PageRenderer) : PageRenderer := r.emitRun o t r.invert

/-! ## Text -/

/-- The pen of an aligned run: exact where the whole span fits one row, dropped where it wraps. -/
def alignedX (t : Span) (align : Align) (l : Layout) : UInt16 :=
  let w := (UInt16.ofNat (t.cells 0 t.len * l.advance)).toNat
  let avail := right - l.leftEdge
  if l.rowOpen = false ∧ align ≠ .left ∧ w ≤ avail then
    UInt16.ofNat (if align = .center then l.leftEdge + (avail - w) / 2 else right - w)
  else l.x

/-- The pen is moved for the alignment. -/
def alignPen (t : Span) (align : Align) (r : PageRenderer) : PageRenderer :=
  { r with x := alignedX t align r.toLayout }

/-- The face a heading asks for. -/
def wantedHead (depth : UInt8) : Head := if depth ≤ 1 then .h1 else if depth = 2 then .h2 else .h3

/-- The codepoint at an index, as the heading ladder decodes it. -/
def headCodepoint (t : Span) (k : Nat) : UInt32 :=
  let c := t.byte k
  match t.seqLenAt k with
  | 1 => c.toUInt32
  | 2 => ((c &&& 0x1F).toUInt32 <<< 6) ||| (t.byte (k + 1) &&& 0x3F).toUInt32
  | 3 => ((c &&& 0x0F).toUInt32 <<< 12) ||| ((t.byte (k + 1) &&& 0x3F).toUInt32 <<< 6)
      ||| (t.byte (k + 2) &&& 0x3F).toUInt32
  | _ => 0xFFFF

/-- Whether a heading face carries a codepoint. -/
def headHas (want : Head) (cp : UInt32) : Bool :=
  match want with
  | .h1 => (o.fonts.big cp).isSome
  | .h2 => (o.fonts.bold .h2 cp).isSome
  | _ => (o.fonts.bold .h3 cp).isSome

/-- The cell height of a heading face. -/
def headCellH : Head → Nat
  | .h1 => bigFontH
  | .h2 => boldH .h2
  | _ => boldH .h3

/-- A line whose codepoints the face all carries climbs the heading ladder. -/
def Climbs (t : Span) (s : Style) (l : Layout) : Prop :=
  o.head2x ∧ s.heading ∧ l.rowOpen = false ∧ 0 < t.len ∧
    (t.steps 0 t.len).all fun k => headHas o (wantedHead s.depth) (headCodepoint t k)

instance (t : Span) (s : Style) (l : Layout) : Decidable (Climbs o t s l) :=
  inferInstanceAs (Decidable (_ ∧ _))

/-- The heading ladder: the line is drawn whole in one face. -/
def climbLadder (t : Span) (s : Style) (r : PageRenderer) : PageRenderer :=
  let want := wantedHead s.depth
  { r with head := if Climbs o t s r.toLayout then want else r.head
           ownRowH := if Climbs o t s r.toLayout then
               UInt16.ofNat (headCellH want + o.leading.toNat)
             else r.ownRowH }

/-- The style of a run: its background, weight, underline, inversion and rule. -/
def setStyle (s : Style) (r : PageRenderer) : PageRenderer :=
  let r := { r with bold := s.bold && r.head == Head.none, underline := s.underline }
  { r with headRule := o.stepped && s.heading && 2 ≤ s.depth && r.head == Head.none
           invert := s.hasBg && lumaOf s.bg < 128 }

/-- The background of a run. -/
def setBackground (s : Style) (r : PageRenderer) : PageRenderer :=
  { r with hasBg := s.hasBg, bgLuma := lumaOf s.bg }

/-- `_depth`, `_blank_pending` and `_literal` for a run. -/
def startText (s : Style) (r : PageRenderer) : PageRenderer :=
  { r with depth := s.depth, blankPending := false, literal := s.literal }

/-- What `onText` does before it emits its run. -/
def openText (t : Span) (s : Style) (r : PageRenderer) : PageRenderer :=
  (((((r.startText s).freshRow).alignPen t s.align).setBackground s).climbLadder o t s).setStyle o s

/-- **`onText`.** -/
def onText (t : Span) (s : Style) (r : PageRenderer) : PageRenderer :=
  (r.openText o t s).emitHere o t

/-! ## Links, dividers -/

/-- The box of a link, on its last row. -/
def boxLink (x0 y0 : UInt16) (target : Span) (r : PageRenderer) : PageRenderer :=
  let b : LinkBox :=
    { x := x0, y := y0, w := if x0 < r.x then r.x - x0 else 0, h := r.rowH o
      target := target, targetLen := UInt16.ofNat target.len }
  { r with links := if r.rowVisible then r.links.add b else r.links }

/-- The label of a link, and its box. -/
def linkHere (label target : Span) (r : PageRenderer) : PageRenderer :=
  (r.emitHere o label).boxLink o r.x r.screenY target

/-- `onLink`: the label in the surrounding style. -/
def onLink (label target : Span) (s : Style) (r : PageRenderer) : PageRenderer :=
  ((r.setDepth s).freshRow).linkHere o label target

/-- The UTF-8 bytes of a divider's character. -/
def dividerGlyph (ch : UInt32) : List UInt8 :=
  let tail (v : UInt32) : UInt8 := ((0x80 : UInt32) ||| (v &&& 0x3F)).toUInt8
  if ch < 0x80 then [ch.toUInt8]
  else if ch < 0x800 then [((0xC0 : UInt32) ||| ch >>> 6).toUInt8, tail ch]
  else [((0xE0 : UInt32) ||| ch >>> 12).toUInt8, tail (ch >>> 6), tail ch]

/-- The pens of a divider: every cell that ends within the margin. -/
def dividerPens (l : Layout) : List Nat :=
  positions (fun _ => fontAdvance) l.leftEdge (right - fontAdvance + 1)

/-- A row of the divider's character. -/
def dividerOps (ch : UInt32) : Drawing := fun l y =>
  (dividerPens l).map fun x => .drawText (UInt16.ofNat x) y (dividerGlyph ch) true

/-- A divider on a visible row: a missing fill is counted only there. -/
def drawDivider (ch : UInt32) (r : PageRenderer) : PageRenderer :=
  if r.rowVisible then (r.noteUnless (glyphFor o.fonts ch).isSome ch).issue (dividerOps ch) else r

/-- `onDivider`. -/
def onDivider (ch : UInt32) (s : Style) (r : PageRenderer) : PageRenderer :=
  (((r.setDepth s).freshRow).drawDivider o ch).openRow

/-! ## Fields -/

/-- The bar of a text field: black, texture, or nothing. -/
def fieldBarOps (w : Nat) (s : Style) : Drawing := fun l y =>
  let bw := if l.x.toNat + w * fontAdvance ≤ right then UInt16.ofNat (w * fontAdvance)
    else UInt16.ofNat right - l.x
  let luma := if s.hasBg then lumaOf s.bg else 255
  if s.hasBg && luma < 128 then [.fillRect l.x y bw (l.rowH o) true]
  else if s.hasBg then l.bgOps o l.x y bw luma
  else []

/-- What a cell of a text field shows: the value, an asterisk for it, or the empty slot. -/
def fieldCellOps (f : Field) (s : Style) (vk : Nat) : Drawing := fun l y =>
  let inkBlack := !(s.hasBg && lumaOf s.bg < 128)
  if vk < f.value.len then
    [.drawText l.x y (if f.masked then [0x2A] else f.value.glyph vk) inkBlack]
  else if s.hasBg then [] else [.drawText l.x y [0x5F] true]

/-- The cells of a text field, up to the margin; `vk` is the cursor in the value. -/
def fieldCells (f : Field) (s : Style) : Nat → Nat → PageRenderer → PageRenderer
  | 0, _, r => r
  | n + 1, vk, r =>
      if right < r.x.toNat + fontAdvance then r
      else
        fieldCells f s n (if vk < f.value.len then vk + f.value.seqLenAt vk else vk)
          ((r.paint (fieldCellOps f s vk)).penOver (UInt16.ofNat fontAdvance))

/-- A text field: a slot of the declared width. -/
def textField (f : Field) (s : Style) (r : PageRenderer) : PageRenderer :=
  let w := if f.width = 0 then 1 else f.width.toNat
  fieldCells f s w 0 (r.paint (fieldBarOps o w s))

/-- The glyphs of a radio button or a checkbox. -/
def boxOps (f : Field) : Drawing := fun l y =>
  let draw (g : List UInt8) : LcdOp := .drawText l.x y g (!l.invert)
  if f.kind = .radio then
    [draw (if f.prechecked then [0xE2, 0x97, 0x8F] else [0xE2, 0x97, 0x8B])]
  else draw [0xE2, 0x96, 0xA1] :: if f.prechecked then [draw [0xE2, 0x9C, 0x93]] else []

/-- The box on a visible row. -/
def drawBox (f : Field) (r : PageRenderer) : PageRenderer :=
  if r.rowVisible then r.freshRow.issue (boxOps f) else r

/-- The label of a box, a space in front. -/
def boxLabel (f : Field) (r : PageRenderer) : PageRenderer :=
  if f.label.len = 0 then r else (r.emitHere o (.ofList [0x20])).emitHere o f.label

/-- A checkbox or a radio button with its label. -/
def boxField (f : Field) (r : PageRenderer) : PageRenderer :=
  ((r.drawBox f).penOver (UInt16.ofNat fontAdvance)).boxLabel o f

/-- **`onField`.** -/
def onField (f : Field) (s : Style) (r : PageRenderer) : PageRenderer :=
  let r := (r.setDepth s).freshRow
  if f.kind = .text then r.textField o f s else r.boxField o f

/-! ## Line ends -/

/-- `onAnchor`: nothing to draw. -/
def onAnchor (r : PageRenderer) : PageRenderer := r

/-- The rule under a heading: the content width at depth 2, its own text deeper. -/
def headRuleOps (s : Style) : Drawing := fun l y =>
  let w := if s.depth ≤ 2 then UInt16.ofNat (right - l.leftEdge)
    else l.x - UInt16.ofNat l.leftEdge
  [.drawHline (UInt16.ofNat l.leftEdge) (y + l.rowH o - 1) w true]

/-- The rule is drawn once the width of the row is known. -/
def drawHeadRule (s : Style) (r : PageRenderer) : PageRenderer :=
  if r.headRule && r.rowOpen then r.paint (headRuleOps o s) else r

/-- The gap under a heading. -/
def headGap (s : Style) (wasBig : Bool) (r : PageRenderer) : PageRenderer :=
  if s.heading then
    r.down (.headGap wasBig) (UInt16.ofNat (if wasBig then headGapBig else paraGap))
  else r

/-- The next line is a body row, without a rule. -/
def resetRow (r : PageRenderer) : PageRenderer :=
  { r with headRule := false, ownRowH := 0, head := .none, bold := false, invert := false }

/-- **`onLineEnd`.** -/
def onLineEnd (s : Style) (r : PageRenderer) : PageRenderer :=
  ((((r.setDepth s).drawHeadRule o s).newline o).headGap s (r.head == Head.h1)).resetRow

/-! ## Images and partials -/

/-- `onImage`: a marker and the alt text, or the address. -/
def onImage (alt url : Span) (s : Style) (r : PageRenderer) : PageRenderer :=
  (((r.setDepth s).emitHere o (.ofList [0x5B, 0x69, 0x6D, 0x67, 0x5D, 0x20]))).emitHere o
    (if alt.len = 0 then url else alt)

/-- `onPartial`: a link to what would be pulled in. -/
def onPartial (url : Span) (s : Style) (r : PageRenderer) : PageRenderer :=
  ((r.setDepth s).emitHere o (.ofList [0x5B, 0x2B, 0x5D, 0x20])).onLink o url url s

end PageRenderer

end Thicket.Page
