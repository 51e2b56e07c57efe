import Thicket.Base.Runs
import Thicket.Page.Renderer

/-! # Emitting a run

`emit_literal` and `emit_run`: a preformatted line is drawn as it is and clipped at the margin with
a mark; prose wraps between words, and a word too long for a line is broken at the margin. -/

namespace Thicket.Page

open Thicket.Lcd Thicket.Page.Span

/-- `PageMetrics::CLIP_MARK`, U+00BB, as UTF-8. -/
def clipMark : List UInt8 := [0xC2, 0xBB]

/-- `last_cell`. -/
def lastCell : Nat := right - fontAdvance

variable (o : Options) (t : Span) (invert : Bool)

/-! ## What is drawn -/

/-- The mark in the last column: something is still to come. -/
def clipOps : Drawing := fun l y =>
  [.fillRect (UInt16.ofNat lastCell) y (UInt16.ofNat fontAdvance) (l.rowH o) invert,
    .drawText (UInt16.ofNat lastCell) y clipMark (!invert)]

/-- A cell of a preformatted line. -/
def literalOps (g : List UInt8) : Drawing := fun l y =>
  (if invert then [.fillRect l.x y (UInt16.ofNat fontAdvance) (l.rowH o) true] else [])
    ++ [.drawText l.x y g (!invert)]

/-- A cell of a word that is broken at the margin. -/
def brokenOps (g : List UInt8) : Drawing := fun l y =>
  [l.glyphOp o l.x y g (codepointOf g) (!invert)]

/-- The rule under a piece of an underlined run. -/
def underlineOps (w : UInt16) : Drawing := fun l y =>
  if l.underline then [.drawHline l.x (y + l.rowH o - 2) w (!invert)] else []

/-- A background is one fill. -/
theorem eq_fill_of_mem_bgOps {l : Layout} {x y w : UInt16} {luma : UInt8} {op : LcdOp}
    (h : op ∈ l.bgOps o x y w luma) :
    op = .fillDither x y w (l.rowH o) luma ∨ op = .fillRect x y w (l.rowH o) true := by
  rw [Layout.bgOps] at h
  split_ifs at h
  · exact .inl (List.mem_singleton.mp h)
  · exact .inr (List.mem_singleton.mp h)
  · cases h

/-- An underline is one line. -/
theorem eq_hline_of_mem_underlineOps {l : Layout} {y w : UInt16} {op : LcdOp}
    (h : op ∈ underlineOps o invert w l y) :
    op = .drawHline l.x (y + l.rowH o - 2) w (!invert) := by
  rw [underlineOps] at h
  split_ifs at h
  · exact List.mem_singleton.mp h
  · cases h

/-- The spaces in front of a word carry the texture and the underline. -/
def leadOps (w : UInt16) : Drawing := fun l y =>
  (if l.hasBg then l.bgOps o l.x y w l.bgLuma else []) ++ underlineOps o invert w l y

/-- `L == 1 && (g[0] == ' ' || g[0] == '\t')`. -/
def isBlank (g : List UInt8) : Bool := g.length == 1 && isSpace (peek g)

/-- What a cell of a word draws: texture or a knockout, the glyph, the underline. -/
def cellOps (g : List UInt8) : Drawing := fun l y =>
  let w := UInt16.ofNat l.advance
  (if l.hasBg then
      if isBlank g then l.bgOps o l.x y w l.bgLuma else [.fillRect l.x y w (l.rowH o) invert]
    else if invert then [.fillRect l.x y w (l.rowH o) true]
    else [])
  ++ (if isBlank g then [] else [l.glyphOp o l.x y g (codepointOf g) (!invert)])
  ++ underlineOps o invert w l y

/-- What a cell with a glyph draws: the fill, if there is one, comes first. -/
theorem cellOps_of_glyph {g : List UInt8} (h : isBlank g = false) (l : Layout) (y : UInt16) :
    cellOps o invert g l y
      = (if l.hasBg then [.fillRect l.x y (UInt16.ofNat l.advance) (l.rowH o) invert]
        else if invert then [.fillRect l.x y (UInt16.ofNat l.advance) (l.rowH o) true] else [])
        ++ (l.glyphOp o l.x y g (codepointOf g) (!invert)
          :: underlineOps o invert (UInt16.ofNat l.advance) l y) := by
  simp [cellOps, h]

/-! ## The width of a word -/

/-- `lead_w`: the width of the spaces in front of a word. -/
def leadW (adv : Nat) (w : Word) : UInt16 := UInt16.ofNat ((w.sp - w.i) * adv)

/-- `word_w`. -/
def wordW (adv : Nat) (w : Word) : UInt16 := UInt16.ofNat (t.cells w.sp w.w * adv)

/-- The word does not fit on a line of its own. -/
def TooLong (edge adv : Nat) (w : Word) : Prop :=
  contentW - (edge - marginX) < (wordW t adv w).toNat

instance (edge adv : Nat) (w : Word) : Decidable (TooLong t edge adv w) :=
  inferInstanceAs (Decidable (_ < _))

/-- The word does not fit on the rest of the line. -/
def Wraps (edge adv : Nat) (x : UInt16) (w : Word) : Prop :=
  right < x.toNat + (leadW adv w).toNat + (wordW t adv w).toNat ∧ edge < x.toNat

instance (edge adv : Nat) (x : UInt16) (w : Word) : Decidable (Wraps t edge adv x w) :=
  inferInstanceAs (Decidable (_ ∧ _))

namespace PageRenderer

/-! ## Preformatted text -/

/-- One cell of a preformatted line. -/
def emitLiteralCell (r : PageRenderer) (k : Nat) : PageRenderer :=
  let g := t.glyph k
  ((r.noteUnless (glyphFor o.fonts (codepointOf g)).isSome (codepointOf g)).paint
    (literalOps o invert g)).penOver (UInt16.ofNat fontAdvance)

/-- The cells of a preformatted line, up to the margin. -/
def emitLiteralFrom : List Nat → PageRenderer → PageRenderer
  | [], r => r
  | k :: ks, r =>
      if right < r.x.toNat + fontAdvance then { r.paint (clipOps o invert) with rowOpen := true }
      else emitLiteralFrom ks (r.emitLiteralCell o t invert k)

/-- **`emit_literal`**: no wrapping and no breaking. -/
def emitLiteral (r : PageRenderer) : PageRenderer :=
  emitLiteralFrom o t invert (t.steps 0 t.len) r.freshRow

/-! ## Prose -/

/-- A codepoint of the row's face: noted, drawn, and the pen moved on. -/
def emitGlyph (d : List UInt8 → Drawing) (r : PageRenderer) (k : Nat) : PageRenderer :=
  let g := t.glyph k
  ((r.noteUnless (r.faceHas o (codepointOf g)) (codepointOf g)).paint (d g)).penOver
    (UInt16.ofNat r.advance)

/-- One cell of a word that is broken at the margin. -/
def emitBrokenCell (r : PageRenderer) (k : Nat) : PageRenderer :=
  (r.wrapIfNeeded o r.advance).emitGlyph o t (brokenOps o invert) k

/-- One cell of a word. -/
def emitCell (r : PageRenderer) (k : Nat) : PageRenderer := r.emitGlyph o t (cellOps o invert) k

/-- The spaces in front of a word open the row. -/
def emitLead (w : UInt16) (r : PageRenderer) : PageRenderer :=
  (r.paint (leadOps o invert w)).penOver w

/-- The break in front of a word, or its spaces: they are dropped at a wrap. -/
def breakOrLead (r : PageRenderer) (w : Word) : PageRenderer :=
  if Wraps t r.leftEdge r.advance r.x w then r.newline o
  else if leadW r.advance w = 0 then r
  else r.emitLead o invert (leadW r.advance w)

/-- **One word of a run**, with the spaces in front of it. -/
def emitWord (r : PageRenderer) (w : Word) : PageRenderer :=
  if TooLong t r.leftEdge r.advance w then
    Runs.run (emitBrokenCell o t invert) r (t.steps w.i w.w)
  else Runs.run (emitCell o t invert) (r.breakOrLead o t invert w) (t.steps w.sp w.w)

/-- The indent guard: a pen left of the edge is pulled back on a fresh row. -/
def guardIndent (r : PageRenderer) : PageRenderer :=
  { r with x := if r.rowOpen = false ∧ r.x.toNat < r.leftEdge then UInt16.ofNat r.leftEdge
                else r.x }

/-- **`emit_run`.** -/
def emitRun (r : PageRenderer) : PageRenderer :=
  if r.literal then r.emitLiteral o t invert
  else Runs.run (emitWord o t invert) r.guardIndent t.words

end PageRenderer

end Thicket.Page
