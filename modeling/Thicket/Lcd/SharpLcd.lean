import Mathlib.Data.Fintype.Basic
import Mathlib.Logic.Function.Basic
import Thicket.Base.Loop
import Thicket.Lcd.Font

/-! # The display driver

`lib/SharpLcd/src/SharpLcd.{h,cpp}`: the framebuffer with its dirty bits, the drawing operations,
and the three transactions on the bus. Drawing happens through `set_pixel` only. A rectangle whose
far edge does not fit 16 bits never returns, which is `none`. -/

namespace Thicket.Lcd

/-- `LCD_WIDTH`. -/
def lcdWidth : Nat := 400
/-- `LCD_HEIGHT`. -/
def lcdHeight : Nat := 240
/-- `LCD_LINE_BYTES`. -/
def lcdLineBytes : Nat := 50
/-- `LCD_FB_BYTES`. -/
def lcdFbBytes : Nat := 12000
/-- `sizeof(_dirty)`. -/
def dirtyBytes : Nat := 30

/-- `LCD_M0_WRITE`. -/
def lcdM0Write : UInt8 := 0x80
/-- `LCD_M1_VCOM`. -/
def lcdM1Vcom : UInt8 := 0x40
/-- `LCD_M2_CLEAR`. -/
def lcdM2Clear : UInt8 := 0x20

/-- A screen image in the panel's own layout: 50 bytes a line, a set bit is white. -/
abbrev Image : Type := Fin lcdFbBytes → UInt8

/-- A line on the panel. -/
abbrev Line : Type := Fin lcdHeight

/-- The byte of an image at a line and a byte of it: `y * LCD_LINE_BYTES + k`. -/
def byteIndex (y : Line) (k : Fin lcdLineBytes) : Fin lcdFbBytes :=
  ⟨y * lcdLineBytes + k, by have := y.2; have := k.2; simp only [lcdHeight, lcdLineBytes] at *
                            unfold lcdFbBytes; omega⟩

/-- The bytes of a line. -/
def Image.line (img : Image) (y : Line) : List UInt8 :=
  (List.finRange lcdLineBytes).map fun k => img (byteIndex y k)

/-- The mask of a pixel in its byte: the leftmost pixel is bit 7. -/
def pixelMask (x : Nat) : UInt8 := 0x80 >>> UInt8.ofNat (x % 8)

/-- A pixel of an image, `true` for black; off the panel nothing is. -/
def Image.pixel (img : Image) (x y : UInt16) : Bool :=
  if h : x.toNat < lcdWidth ∧ y.toNat < lcdHeight then
    img (byteIndex ⟨y.toNat, h.2⟩ ⟨x.toNat / 8, by have := h.1; simp only [lcdWidth] at this
                                                   unfold lcdLineBytes; omega⟩)
      &&& pixelMask x.toNat == 0
  else false

/-- `reverse_bits`. -/
def reverseBits (v : UInt8) : UInt8 :=
  let v := ((v &&& 0xF0) >>> 4) ||| ((v &&& 0x0F) <<< 4)
  let v := ((v &&& 0xCC) >>> 2) ||| ((v &&& 0x33) <<< 2)
  ((v &&& 0xAA) >>> 1) ||| ((v &&& 0x55) <<< 1)

/-- `line_address`. -/
def lineAddress (line1Based : Nat) : UInt8 := reverseBits (UInt8.ofNat line1Based)

/-- The driver. -/
structure SharpLcd where
  /-- `_fb`. -/
  fb : Image
  /-- `_dirty`: one bit a line. -/
  dirty : Fin dirtyBytes → UInt8 := fun _ => 0
  /-- `_vcom`. -/
  vcom : Bool := false

namespace SharpLcd

/-- The byte of `_dirty` that holds a line's bit. -/
def dirtyByte (y : Line) : Fin dirtyBytes :=
  ⟨y / 8, by have := y.2; simp only [lcdHeight] at this; unfold dirtyBytes; omega⟩

/-- `mark_dirty`. -/
def markDirty (s : SharpLcd) (y : Line) : SharpLcd :=
  let i := dirtyByte y
  { s with dirty := Function.update s.dirty i (s.dirty i ||| (1 <<< UInt8.ofNat (y % 8))) }

/-- `is_dirty`. -/
def isDirty (s : SharpLcd) (y : Line) : Bool :=
  (s.dirty (dirtyByte y) >>> UInt8.ofNat (y % 8)) &&& 1 != 0

/-- `dirty_lines`. -/
def dirtyLines (s : SharpLcd) : Nat := (List.finRange lcdHeight).countP s.isDirty

/-- `fill_white`. -/
def fillWhite (s : SharpLcd) : SharpLcd := { s with fb := fun _ => 0xFF, dirty := fun _ => 0xFF }

/-- **`set_pixel`**: change one bit, and mark the line when its byte changed. -/
def setPixel (s : SharpLcd) (x y : UInt16) (black : Bool) : SharpLcd :=
  if h : x.toNat < lcdWidth ∧ y.toNat < lcdHeight then
    let i := byteIndex ⟨y.toNat, h.2⟩ ⟨x.toNat / 8, by have := h.1; simp only [lcdWidth] at this
                                                       unfold lcdLineBytes; omega⟩
    let before := s.fb i
    let b := if black then before &&& ~~~pixelMask x.toNat else before ||| pixelMask x.toNat
    let s' := { s with fb := Function.update s.fb i b }
    if b ≠ before then s'.markDirty ⟨y.toNat, h.2⟩ else s'
  else s

/-- `get_pixel`. -/
def getPixel (s : SharpLcd) (x y : UInt16) : Bool := s.fb.pixel x y

/-! ## Text -/

/-- The ink of a glyph, row by row: `h` rows of `w` columns, blank rows skipped. -/
def drawInk (bits : Nat → Nat) (h w top : Nat) (x y : UInt16) (black : Bool) (s : SharpLcd) :
    SharpLcd :=
  (List.range h).foldl (fun s row =>
    if bits row = 0 then s
    else (List.range w).foldl (fun s col =>
      if (bits row).testBit (top - col) then
        s.setPixel (x + UInt16.ofNat col) (y + UInt16.ofNat row) black
      else s) s) s

/-- A string, glyph by glyph; the pen after it and the driver. -/
def drawRun (glyph : UInt32 → UInt16 → SharpLcd → SharpLcd) (advance : Nat) (x : UInt16)
    (text : List UInt8) (s : SharpLcd) : UInt16 × SharpLcd :=
  (codepoints text).foldl (fun (x, s) cp => (x + UInt16.ofNat advance, glyph cp x s)) (x, s)

variable (F : Fonts)

/-- `draw_text`: a codepoint the face does not carry is a box. -/
def drawText (s : SharpLcd) (x y : UInt16) (text : List UInt8) (black : Bool) :
    UInt16 × SharpLcd :=
  drawRun (fun cp x s =>
    drawInk (fun row => ((glyphFor F cp).getD missingBox row).toNat) fontH fontInkW 7 x y black s)
    fontW x text s

/-- `draw_text_scaled`: each pixel of the glyph is a square. -/
def drawTextScaled (s : SharpLcd) (x y : UInt16) (text : List UInt8) (black : Bool)
    (scale : UInt8) : UInt16 × SharpLcd :=
  if scale ≤ 1 then s.drawText F x y text black
  else
    let k := scale.toNat
    drawRun (fun cp x s =>
      match glyphFor F cp with
      | none => s
      | some g => (List.range fontH).foldl (fun s row =>
          if g row = 0 then s
          else (List.range fontInkW).foldl (fun s col =>
            if (g row).toNat.testBit (7 - col) then
              (List.range k).foldl (fun s sy => (List.range k).foldl (fun s sx =>
                s.setPixel (x + UInt16.ofNat (col * k + sx)) (y + UInt16.ofNat (row * k + sy))
                  black) s) s
            else s) s) s)
      (fontW * k) x text s

/-- `draw_text_big`: a codepoint the face does not carry is a hole. -/
def drawTextBig (s : SharpLcd) (x y : UInt16) (text : List UInt8) (black : Bool) :
    UInt16 × SharpLcd :=
  drawRun (fun cp x s =>
    match F.big cp with
    | none => s
    | some g => drawInk (fun row => (g row).toNat) bigFontH bigFontInkW 15 x y black s)
    bigFontW x text s

/-- `draw_text_bold`: a codepoint the face does not carry is a hole. -/
def drawTextBold (s : SharpLcd) (x y : UInt16) (text : List UInt8) (face : BoldFace)
    (black : Bool) : UInt16 × SharpLcd :=
  drawRun (fun cp x s =>
    match F.bold face cp with
    | none => s
    | some g => drawInk (fun row => (g row).toNat) (boldH face) 8 7 x y black s)
    (boldW face) x text s

/-! ## Rectangles -/

/-- `draw_hline`. -/
def drawHline (s : SharpLcd) (x y w : UInt16) (black : Bool) : Option SharpLcd :=
  forU16 x (x.toNat + w.toNat) (fun xx s => some (s.setPixel xx y black)) s

/-- `fill_rect`. -/
def fillRect (s : SharpLcd) (x y w h : UInt16) (black : Bool) : Option SharpLcd :=
  forU16 y (y.toNat + h.toNat) (fun yy s =>
    forU16 x (x.toNat + w.toNat) (fun xx s => some (s.setPixel xx yy black)) s) s

/-- `BAYER4`. -/
def bayer4 : List UInt8 :=
  [8, 136, 40, 168, 200, 72, 232, 104, 56, 184, 24, 152, 248, 120, 216, 88]

/-- `dither_on`. -/
def ditherOn (x y : UInt16) (level : UInt8) : Bool :=
  level ≤ bayer4.getD (y.toNat % 4 * 4 + x.toNat % 4) 0

/-- `fill_dither`. -/
def fillDither (s : SharpLcd) (x y w h : UInt16) (level : UInt8) : Option SharpLcd :=
  if level ≥ 249 then some s
  else forU16 y (min (y.toNat + h.toNat) lcdHeight) (fun yy s =>
    forU16 x (min (x.toNat + w.toNat) lcdWidth) (fun xx s =>
      some (if ditherOn xx yy level then s.setPixel xx yy true else s)) s) s

/-! ## The bus -/

end SharpLcd

/-- A call on `SharpLcdBus`. -/
inductive BusCall where
  /-- `select(on)`. -/
  | select (on : Bool)
  /-- `write(data, len)`. -/
  | write (data : List UInt8)
  deriving DecidableEq

namespace SharpLcd

/-- The bytes of one line in a multi-line update: address, data, gap. -/
def lineCalls (s : SharpLcd) (y : Line) : List BusCall :=
  [.write [lineAddress (y + 1)], .write (s.fb.line y), .write [0x00]]

/-- **`flush`**: send the dirty lines, if any; the calls it makes and the driver after. -/
def flush (s : SharpLcd) : List BusCall × SharpLcd :=
  if s.dirtyLines = 0 then ([], s)
  else
    let cmd := lcdM0Write ||| if s.vcom then lcdM1Vcom else 0
    ([.select true, .write [cmd]]
      ++ ((List.finRange lcdHeight).filter s.isDirty).flatMap s.lineCalls
      ++ [.write [0x00], .select false],
      { s with dirty := fun _ => 0 })

/-- `toggle_vcom`. -/
def toggleVcom (s : SharpLcd) : List BusCall × SharpLcd :=
  let s' := { s with vcom := !s.vcom }
  ([.select true, .write [if s'.vcom then lcdM1Vcom else 0x00, 0x00], .select false], s')

/-- `clear`: the panel clears itself. -/
def clear (s : SharpLcd) : List BusCall × SharpLcd :=
  ([.select true, .write [lcdM2Clear ||| if s.vcom then lcdM1Vcom else 0x00, 0x00], .select false],
    { s with fb := fun _ => 0xFF, dirty := fun _ => 0 })

end SharpLcd

end Thicket.Lcd
