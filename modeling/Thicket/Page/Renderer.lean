import Thicket.Lcd.Display
import Thicket.Page.Span

/-! # The page renderer: its state and its primitives

`lib/MicronRender/src/MicronRender.{h,cpp}`. The calls on the driver are collected in a log,
together with every advance to a lower row. The types of the Micron parser are known by
what the renderer reads of them. What no function reads (`_big`, `_in_table`, `_table_row`,
`_table_align`) is left out. -/

namespace Thicket.Page

open Thicket.Lcd

/-! ## Metrics -/

/-- `PageMetrics::MARGIN_X`. -/
def marginX : Nat := 2
/-- `PageMetrics::LINE_H`. -/
def lineHeight : Nat := 13
/-- `PageMetrics::INDENT_PX`. -/
def indentPx : Nat := 12
/-- `PageMetrics::MAX_DEPTH`. -/
def maxDepth : Nat := 4
/-- `PageMetrics::PARA_GAP`. -/
def paraGap : Nat := 4
/-- `PageMetrics::HEAD_GAP_BIG`. -/
def headGapBig : Nat := 9
/-- `PageMetrics::FONT_ADVANCE`. -/
def fontAdvance : Nat := 6
/-- `PageMetrics::content_w`. -/
def contentW : Nat := lcdWidth - 2 * marginX
/-- `LCD_WIDTH - PageMetrics::MARGIN_X`. -/
def right : Nat := lcdWidth - marginX
/-- `PageRenderer::MAX_LINKS`. -/
def maxLinks : Nat := 48
/-- `PageRenderer::MAX_MISSING`. -/
def maxMissing : Nat := 24

/-! ## What the parser hands over -/

/-- `micron::Align`. -/
inductive Align where
  /-- `Left`. -/
  | left
  /-- `Center`. -/
  | center
  /-- `Right`. -/
  | right
  deriving DecidableEq, Repr

/-- `micron::Color`. -/
structure Color where
  /-- `is_default`. -/
  isDefault : Bool := true
  /-- `is_valid`. -/
  isValid : Bool := false
  /-- `rgb`. -/
  rgb : UInt32 := 0

/-- `micron::Style`. -/
structure Style where
  /-- `depth`: the section depth. -/
  depth : UInt8 := 0
  /-- `literal`. -/
  literal : Bool := false
  /-- `heading`. -/
  heading : Bool := false
  /-- `bold`. -/
  bold : Bool := false
  /-- `underline`. -/
  underline : Bool := false
  /-- `align`. -/
  align : Align := .left
  /-- `bg`. -/
  bg : Color := {}

/-- `luma_of`: Rec. 601, 0 dark to 255 light. -/
def lumaOf (c : Color) : UInt8 :=
  if c.isDefault || !c.isValid then 255
  else
    let r := (c.rgb >>> 16) &&& 0xff
    let g := (c.rgb >>> 8) &&& 0xff
    let b := c.rgb &&& 0xff
    ((299 * r + 587 * g + 114 * b) / 1000).toUInt8

/-- `!bg.is_default && bg.is_valid`: the page asked for a background. -/
def Style.hasBg (s : Style) : Bool := !s.bg.isDefault && s.bg.isValid

/-- The two knobs of the constructor and the font tables. -/
structure Options where
  /-- The generated fonts. -/
  fonts : Fonts
  /-- `_leading`. -/
  leading : UInt8 := 2
  /-- `_stepped`. -/
  stepped : Bool := true
  /-- `_head2x`. -/
  head2x : Bool := true
  /-- `_dither`. -/
  dither : Bool := true

/-- `line_h`. -/
def Options.lineH (o : Options) : UInt16 := UInt16.ofNat (lineHeight + o.leading.toNat)

/-! ## The state -/

/-- `_head`: the face of the row. -/
inductive Head where
  /-- 0, body. -/
  | none
  /-- 1, Cozette hi-DPI. -/
  | h1
  /-- 2, Tamzen 8x16. -/
  | h2
  /-- 3, Tamzen 7x13. -/
  | h3
  deriving DecidableEq, Repr

/-- `head_bold_face`. -/
def headBoldFace : Head → BoldFace
  | .h2 => .h2
  | _ => .h3

/-- The pen, and how the row is drawn. -/
structure Layout where
  /-- `_y`: the row, in page coordinates. -/
  y : UInt16 := 0
  /-- `_x`: the pen. -/
  x : UInt16 := 0
  /-- `_row_open`. -/
  rowOpen : Bool := false
  /-- `_row_h`: the height of the row, when it is not a body row. -/
  ownRowH : UInt16 := 0
  /-- `_depth`. -/
  depth : UInt8 := 0
  /-- `_head`. -/
  head : Head := .none
  /-- `_bold`. -/
  bold : Bool := false
  /-- `_underline`. -/
  underline : Bool := false
  /-- `_invert`. -/
  invert : Bool := false
  /-- `_head_rule`. -/
  headRule : Bool := false
  /-- `_literal`. -/
  literal : Bool := false
  /-- `_has_bg`. -/
  hasBg : Bool := false
  /-- `_bg_luma`. -/
  bgLuma : UInt8 := 255
  /-- `_blank_pending`. -/
  blankPending : Bool := true

/-- The table that is being collected. -/
structure TableState where
  /-- `_t_rows`. -/
  tRows : Nat := 0
  /-- `_table_cols`. -/
  tableCols : Nat := 0
  /-- `_col_w`. -/
  colW : Nat → Nat := fun _ => 0
  /-- `_tbuf`, with what lies behind it. -/
  tbuf : Nat → UInt8
  /-- `_tlen`. -/
  tlen : Nat := 0
  /-- `_cell_off`. -/
  cellOff : Nat → Nat → Nat := fun _ _ => 0
  /-- `_cell_len`. -/
  cellLen : Nat → Nat → Nat := fun _ _ => 0
  /-- `_table_overflowed`. -/
  tableOverflowed : Bool := false

/-- `LinkBox`. -/
structure LinkBox where
  /-- `x`. -/
  x : UInt16
  /-- `y`. -/
  y : UInt16
  /-- `w`. -/
  w : UInt16
  /-- `h`. -/
  h : UInt16
  /-- `target`. -/
  target : Span
  /-- `target_len`. -/
  targetLen : UInt16

/-- The link table. -/
structure LinkTable where
  /-- `_links`, `_link_count`. -/
  boxes : List LinkBox := []
  /-- `_links_overflowed`. -/
  overflowed : Bool := false

/-- One more link, if there is room for it. -/
def LinkTable.add (b : LinkBox) (l : LinkTable) : LinkTable :=
  if l.boxes.length < maxLinks then { l with boxes := l.boxes ++ [b] }
  else { l with overflowed := true }

/-- The codepoints that the font does not carry. -/
structure MissingGlyphs where
  /-- `_missing`, `_missing_n`. -/
  kinds : List (UInt32 × UInt16) := []
  /-- `_missing_total`. -/
  total : UInt32 := 0
  /-- `_missing_over`. -/
  missingOver : Bool := false

/-- `note_missing`: one more of a codepoint. -/
def MissingGlyphs.note (cp : UInt32) (m : MissingGlyphs) : MissingGlyphs :=
  let m := { m with total := m.total + 1 }
  if m.kinds.any (·.1 == cp) then
    { m with kinds := m.kinds.map fun k => if k.1 = cp then (k.1, k.2 + 1) else k }
  else if m.kinds.length < maxMissing then { m with kinds := m.kinds ++ [(cp, 1)] }
  else { m with missingOver := true }

/-- What has been laid out where `_y` moves down. -/
inductive Advance where
  /-- `newline`: a row, whose `_row_h` this is. -/
  | row (ownRowH : UInt16)
  /-- `blankLine`: the gap of a run of blank lines. -/
  | blankGap
  /-- `table_flush`: a line of a table. -/
  | tableLine
  /-- `onLineEnd`: the gap under a heading, which may be a big one. -/
  | headGap (wasBig : Bool)
  /-- `table_flush`: the gap under a table. -/
  | tableGap
  deriving DecidableEq

/-- **The height of what is laid out**, by the metrics: a row's own height or else `line_h`,
`line_h` for a blank gap and for a line of a table, `HEAD_GAP_BIG` or `PARA_GAP` under a heading,
`PARA_GAP` under a table. -/
def Advance.height (o : Options) : Advance → Nat
  | .row ownRowH => if ownRowH = 0 then o.lineH.toNat else ownRowH.toNat
  | .blankGap => o.lineH.toNat
  | .tableLine => o.lineH.toNat
  | .headGap wasBig => if wasBig then headGapBig else paraGap
  | .tableGap => paraGap

/-- An entry of the log. -/
inductive Entry where
  /-- A call on the driver, and the `_y` of the row it is made for. -/
  | draw (rowTop : UInt16) (op : LcdOp)
  /-- A row or a gap has been laid out. -/
  | down (a : Advance)
  deriving DecidableEq

/-- **The renderer.** -/
structure PageRenderer extends Layout, TableState where
  /-- `_scroll`. -/
  scroll : UInt16 := 0
  /-- Whether `row_visible` looks at the window. It does in every pass that `begin` starts. -/
  clip : Bool := true
  /-- The links on the screen. -/
  links : LinkTable := {}
  /-- The holes of the page. -/
  missing : MissingGlyphs := {}
  /-- What has happened since `begin`, oldest first. -/
  log : List Entry := []

/-! ## Reading the log -/

/-- The operations of a log, oldest first. -/
def issued (log : List Entry) : List LcdOp :=
  log.filterMap fun
    | .draw _ op => some op
    | .down _ => none

@[simp] theorem issued_append (l m : List Entry) : issued (l ++ m) = issued l ++ issued m :=
  List.filterMap_append

/-- The operations of draws. -/
@[simp] theorem issued_draws (y : UInt16) (ops : List LcdOp) :
    issued (ops.map (.draw y)) = ops := by
  simp [issued, List.filterMap_map]

/-! ## Reading the layout -/

namespace Layout

/-- `left_edge`: the indent stops at four levels. -/
def leftEdge (l : Layout) : Nat := marginX + min l.depth.toNat maxDepth * indentPx

/-- The left edge lies in the left half of the panel. -/
theorem leftEdge_bounds (l : Layout) : 2 ≤ l.leftEdge ∧ l.leftEdge ≤ 50 := by
  simp only [leftEdge, marginX, maxDepth, indentPx]
  omega

/-- `row_h`. -/
def rowH (o : Options) (l : Layout) : UInt16 := if l.ownRowH = 0 then o.lineH else l.ownRowH

/-- `advance`. -/
def advance (l : Layout) : Nat :=
  match l.head with
  | .h1 => bigFontW
  | .h2 | .h3 => boldW (headBoldFace l.head)
  | .none => if l.bold then boldW .inline else fontAdvance

/-- The widest cell is a big heading's. -/
theorem advance_bounds (l : Layout) : 0 < l.advance ∧ l.advance ≤ 12 := by
  unfold advance
  cases hh : l.head with
  | none => dsimp only; split <;> decide
  | h1 => simp [bigFontW]
  | h2 => simp [headBoldFace, boldW]
  | h3 => simp [headBoldFace, boldW]

/-- `face_has`. -/
def faceHas (o : Options) (l : Layout) (cp : UInt32) : Bool :=
  match l.head with
  | .h1 => (o.fonts.big cp).isSome
  | .h2 | .h3 => (o.fonts.bold (headBoldFace l.head) cp).isSome
  | .none => (glyphFor o.fonts cp).isSome

/-- `draw_glyph`: one codepoint in the current face. -/
def glyphOp (o : Options) (l : Layout) (x y : UInt16) (g : List UInt8) (cp : UInt32)
    (black : Bool) : LcdOp :=
  match l.head with
  | .h1 => .drawTextBig x y g black
  | .h2 | .h3 => .drawTextBold x y g (headBoldFace l.head) black
  | .none =>
      if l.bold && (o.fonts.bold .inline cp).isSome then .drawTextBold x y g .inline black
      else .drawText x y g black

/-- `paint_bg`, on a row that is visible. -/
def bgOps (o : Options) (l : Layout) (x y w : UInt16) (luma : UInt8) : List LcdOp :=
  if o.dither then [.fillDither x y w (l.rowH o) luma]
  else if luma < 128 then [.fillRect x y w (l.rowH o) true]
  else []

end Layout

/-- Calls on the driver, from the layout and `screen_y`. -/
abbrev Drawing : Type := Layout → UInt16 → List LcdOp

/-- `SharpLcd::next_codepoint` on the bytes of a glyph. -/
def codepointOf (g : List UInt8) : UInt32 := (nextCp g).1

/-! ## Primitives -/

namespace PageRenderer

variable (o : Options)

/-- `row_visible`: the top edge is inside the window. -/
def rowVisible (r : PageRenderer) : Bool :=
  !r.clip || (r.scroll ≤ r.y && r.y.toNat < r.scroll.toNat + lcdHeight)

/-- `screen_y`. -/
def screenY (r : PageRenderer) : UInt16 := r.y - r.scroll

/-- Calls on the driver. -/
def issue (d : Drawing) (r : PageRenderer) : PageRenderer :=
  { r with log := r.log ++ (d r.toLayout r.screenY).map (.draw r.y) }

/-- Calls under a visibility test. -/
def paint (d : Drawing) (r : PageRenderer) : PageRenderer :=
  if r.rowVisible then r.issue d else r

/-- Drawing leaves the layout alone. -/
@[simp] theorem toLayout_paint (d : Drawing) (r : PageRenderer) :
    (r.paint d).toLayout = r.toLayout := by
  unfold paint
  split <;> rfl

/-- `_y = (uint16_t)(_y + h)`, for what is laid out there. -/
def down (a : Advance) (h : UInt16) (r : PageRenderer) : PageRenderer :=
  { r with y := r.y + h, log := r.log ++ [.down a] }

/-- `_x = left_edge()`. -/
def toLeftEdge (r : PageRenderer) : PageRenderer := { r with x := UInt16.ofNat r.leftEdge }

/-- `if (!_row_open) _x = left_edge()`. -/
def freshRow (r : PageRenderer) : PageRenderer :=
  { r with x := if r.rowOpen then r.x else UInt16.ofNat r.leftEdge }

/-- The pen has drawn a piece of this width. -/
def penOver (w : UInt16) (r : PageRenderer) : PageRenderer :=
  { r with x := r.x + w, rowOpen := true }

/-- `newline`: face and row height stay, so a heading keeps its size across a wrap. -/
def newline (r : PageRenderer) : PageRenderer :=
  { (r.down (.row r.ownRowH) (r.rowH o)).toLeftEdge with rowOpen := false }

/-- `wrap_if_needed`. -/
def wrapIfNeeded (nextW : Nat) (r : PageRenderer) : PageRenderer :=
  if r.leftEdge < r.x.toNat ∧ right < r.x.toNat + nextW then r.newline o else r

/-- A codepoint is counted whether or not it is on screen. -/
def noteUnless (has : Bool) (cp : UInt32) (r : PageRenderer) : PageRenderer :=
  { r with missing := if has then r.missing else r.missing.note cp }

/-- **`begin`**: re-flow from the top. The style of the last row and the table stay. -/
def begin (scroll : UInt16) (r : PageRenderer) : PageRenderer :=
  { r with
    scroll := scroll, clip := true, y := 0, x := 0, rowOpen := false, depth := 0, invert := false
    blankPending := true, tableCols := 0, links := {}, missing := {}, log := [] }

/-- The pass at offset 0 in which every visibility test answers true. -/
def beginWhole (r : PageRenderer) : PageRenderer := { r.begin 0 with clip := false }

/-- `blankLine`: a run of blank lines is one gap. -/
def blankLine (r : PageRenderer) : PageRenderer :=
  if r.blankPending then r else { r.down .blankGap o.lineH with blankPending := true }

/-- `content_height`. -/
def contentHeight (r : PageRenderer) : UInt16 := r.y

/-- A renderer after construction; the table's buffer holds whatever it held. -/
def fresh (tbuf : Nat → UInt8) : PageRenderer := { tbuf := tbuf }

end PageRenderer

end Thicket.Page
