import Thicket.Page.Returns

/-! # One ink

White ink reads on solid black alone, and black ink on the page or on a white knockout. A word of
ordinary length keeps to this in every cell; a word that is broken at the margin draws its glyphs
and nothing else. -/

namespace Thicket.Page

open Thicket.Lcd Thicket.Page.Span

/-! ## Ink and ground -/

/-- A part of the screen. -/
structure Area where
  /-- The left edge. -/
  x : UInt16
  /-- The top edge. -/
  y : UInt16
  /-- The width. -/
  w : UInt16
  /-- The height. -/
  h : UInt16
  deriving DecidableEq

/-- What lies under the ink in an area. -/
inductive Ground where
  /-- The white page. -/
  | page
  /-- A background of black and white dots. -/
  | texture
  /-- Solid black. -/
  | solid
  /-- A white knockout. -/
  | knockout
  deriving DecidableEq

/-- What lies in an area after an operation. -/
def Ground.after (a : Area) (g : Ground) : LcdOp → Ground
  | .fillRect x y w h black =>
      if (⟨x, y, w, h⟩ : Area) = a then (if black then .solid else .knockout) else g
  | .fillDither x y w h level =>
      if (⟨x, y, w, h⟩ : Area) = a then
        -- the ends of the scale are plain: every dot is set, or none
        if level < 9 then .solid else if level < 249 then .texture else g
      else g
  | _ => g

/-- **The ink that reads on a ground**: white on black, and black on the page or on a knockout. -/
def Ground.Takes : Ground → Bool → Prop
  | .page, black => black = true
  | .texture, _ => False
  | .solid, black => black = false
  | .knockout, black => black = true

/-- Whether an operation draws a glyph. -/
def isGlyphOp : LcdOp → Bool
  | .drawText .. | .drawTextBig .. | .drawTextBold .. => true
  | _ => false

/-- The ink of a glyph or of a rule: black is `true`. -/
def inkOf : LcdOp → Option Bool
  | .drawText _ _ _ black | .drawTextBig _ _ _ black | .drawTextBold _ _ _ _ black
  | .drawHline _ _ _ black => some black
  | _ => none

/-- **All ink reads** where it is drawn, one operation after the other. -/
def InkReads (a : Area) : Ground → List LcdOp → Prop
  | _, [] => True
  | g, op :: ops => (∀ black ∈ inkOf op, g.Takes black) ∧ InkReads a (g.after a op) ops

/-- **The treatment of a cell**, or of the spaces in front of a word: the area of the cell, whether
it is blank, and what is issued for it. -/
structure Treated (o : Options) (l : Layout) (y w : UInt16) (invert blank : Bool)
    (ops : List LcdOp) : Prop where
  /-- No white on white, no black on black, nothing over texture. -/
  reads : InkReads ⟨l.x, y, w, l.rowH o⟩ .page ops
  /-- The underline has no gap. -/
  underlined : l.underline = true → .drawHline l.x (y + l.rowH o - 2) w (!invert) ∈ ops
  /-- Spaces draw no glyph. -/
  noGlyph : blank = true → ∀ op ∈ ops, isGlyphOp op = false

variable (o : Options) (l : Layout) (x y w : UInt16) (invert : Bool) (g : List UInt8)

/-- A glyph is a glyph in every face. -/
theorem isGlyphOp_glyphOp (cp : UInt32) (black : Bool) :
    isGlyphOp (l.glyphOp o x y g cp black) = true := by
  rw [Layout.glyphOp]
  split
  · rfl
  · rfl
  · rfl
  · split <;> rfl

/-- The ink of a glyph. -/
theorem inkOf_glyphOp (cp : UInt32) (black : Bool) :
    inkOf (l.glyphOp o x y g cp black) = some black := by
  rw [Layout.glyphOp]
  split
  · rfl
  · rfl
  · rfl
  · split <;> rfl

/-- A glyph fills nothing. -/
theorem after_glyphOp (a : Area) (gr : Ground) (cp : UInt32) (black : Bool) :
    gr.after a (l.glyphOp o x y g cp black) = gr := by
  simp only [Layout.glyphOp]
  split
  · rfl
  · rfl
  · rfl
  · split <;> rfl

/-- A glyph, and what follows. -/
theorem inkReads_glyph (a : Area) (gr : Ground) (cp : UInt32) (black : Bool) (ops : List LcdOp) :
    InkReads a gr (l.glyphOp o x y g cp black :: ops) ↔ gr.Takes black ∧ InkReads a gr ops := by
  rw [InkReads, inkOf_glyphOp, after_glyphOp]
  simp

/-- A rule, and what follows. -/
theorem inkReads_hline (a : Area) (gr : Ground) (black : Bool) (ops : List LcdOp) :
    InkReads a gr (.drawHline x y w black :: ops) ↔ gr.Takes black ∧ InkReads a gr ops := by
  simp [InkReads, inkOf, Ground.after]

/-- A rectangle in the area, and what follows. -/
theorem inkReads_fillRect (a : Area) (gr : Ground) (black : Bool) (ops : List LcdOp) :
    InkReads a gr (.fillRect a.x a.y a.w a.h black :: ops) ↔
      InkReads a (if black then .solid else .knockout) ops := by
  simp [InkReads, inkOf, Ground.after]

/-- A background draws no glyph. -/
theorem isGlyphOp_of_mem_bgOps {luma : UInt8} {op : LcdOp} (h : op ∈ l.bgOps o x y w luma) :
    isGlyphOp op = false := by
  rcases eq_fill_of_mem_bgOps o h with rfl | rfl
  · rfl
  · rfl

/-- An underline draws no glyph. -/
theorem isGlyphOp_of_mem_underlineOps {op : LcdOp} (h : op ∈ underlineOps o invert w l y) :
    isGlyphOp op = false := by
  rw [eq_hline_of_mem_underlineOps o invert h]
  rfl

/-- The underline of an underlined run. -/
theorem mem_underlineOps (h : l.underline = true) :
    .drawHline l.x (y + l.rowH o - 2) w (!invert) ∈ underlineOps o invert w l y := by
  rw [underlineOps, if_pos h]
  exact List.mem_singleton.mpr rfl

/-! ## The cells of a word -/

/-- **A cell of an ordinary word is treated as it should be.** -/
theorem treated_cellOps (h : isBlank g = false) :
    Treated o l y (UInt16.ofNat l.advance) invert (isBlank g) (cellOps o invert g l y) := by
  refine ⟨?_, fun hu => ?_, fun hb => absurd hb (by simp [h])⟩
  · -- the fill comes first, and decides which ink reads
    have hline (gr : Ground) (htakes : gr.Takes (!invert)) :
        InkReads ⟨l.x, y, UInt16.ofNat l.advance, l.rowH o⟩ gr
          (l.glyphOp o l.x y g (codepointOf g) (!invert)
            :: underlineOps o invert (UInt16.ofNat l.advance) l y) := by
      refine (inkReads_glyph ..).mpr ⟨htakes, ?_⟩
      rw [underlineOps]
      split
      · exact (inkReads_hline ..).mpr ⟨htakes, trivial⟩
      · trivial
    rw [cellOps_of_glyph o invert h]
    split
    · refine (inkReads_fillRect _ .page invert _).mpr (hline _ ?_)
      cases invert <;> rfl
    · split
      next hinv =>
        refine (inkReads_fillRect _ .page true _).mpr (hline _ ?_)
        rw [hinv]
        rfl
      next hinv =>
        have hblack : invert = false := by simpa using hinv
        subst hblack
        exact hline .page rfl
  · exact List.mem_append_right _ (mem_underlineOps o l y _ invert hu)

/-- A run that draws glyphs on the bare page and nothing else. -/
def Bare : Prop := l.hasBg = false ∧ invert = false ∧ l.underline = false

instance : Decidable (Bare l invert) := inferInstanceAs (Decidable (_ ∧ _))

/-- **A cell of a broken word** is treated as it should be, and as the same cell of an ordinary
word, exactly if there is nothing to do for it but to draw its glyph. -/
theorem treated_brokenOps_iff :
    (Treated o l y (UInt16.ofNat l.advance) invert (isBlank g) (brokenOps o invert g l y) ∧
        brokenOps o invert g l y = cellOps o invert g l y) ↔
      Bare l invert ∧ isBlank g = false := by
  constructor
  · rintro ⟨hcell, hsame⟩
    have hglyph : isBlank g = false := by
      by_contra hb
      have hno := hcell.noGlyph (by simpa using hb) _ (List.mem_singleton.mpr rfl)
      rw [isGlyphOp_glyphOp] at hno
      cases hno
    refine ⟨?_, hglyph⟩
    -- nothing stands beside the glyph
    have hlen := congrArg List.length hsame
    simp only [brokenOps, cellOps, hglyph, Bool.false_eq_true, if_false, underlineOps,
      List.length_append, List.length_cons, List.length_nil] at hlen
    have hbg : l.hasBg = false := by
      by_contra hno
      rw [if_pos (by simpa using hno), List.length_singleton] at hlen
      omega
    rw [if_neg (by simp [hbg])] at hlen
    have hinv : invert = false := by
      by_contra hno
      rw [if_pos (by simpa using hno), List.length_singleton] at hlen
      omega
    rw [if_neg (by simp [hinv])] at hlen
    refine ⟨hbg, hinv, ?_⟩
    by_contra hno
    rw [if_pos (by simpa using hno), List.length_singleton] at hlen
    omega
  · rintro ⟨⟨hbg, hinv, hu⟩, hglyph⟩
    subst hinv
    have hsame : brokenOps o false g l y = cellOps o false g l y := by
      simp [brokenOps, cellOps, hbg, hu, hglyph, underlineOps]
    refine ⟨?_, hsame⟩
    rw [hsame]
    exact treated_cellOps o l y false g hglyph

/-! ## The spaces in front of a word -/

/-- What the background puts under the spaces in front of a word. -/
def leadGround : Ground :=
  if l.hasBg then
    if o.dither then
      if l.bgLuma < 9 then .solid else if l.bgLuma < 249 then .texture else .page
    else if l.bgLuma < 128 then .solid else .page
  else .page

/-- What lies in the area is what the background has put there. -/
theorem inkReads_lead (ops : List LcdOp) :
    InkReads ⟨l.x, y, w, l.rowH o⟩ .page
        ((if l.hasBg then l.bgOps o l.x y w l.bgLuma else []) ++ ops) ↔
      InkReads ⟨l.x, y, w, l.rowH o⟩ (leadGround o l) ops := by
  rw [leadGround, Layout.bgOps]
  by_cases hbg : l.hasBg = true
  · rw [if_pos hbg, if_pos hbg]
    -- a dithered background is black, texture or nothing, by its luma
    by_cases hd : o.dither = true
    · rw [if_pos hd, if_pos hd]
      simp [InkReads, inkOf, Ground.after]
    · rw [if_neg hd, if_neg hd]
      by_cases hl : l.bgLuma < 128
      · rw [if_pos hl, if_pos hl]
        exact inkReads_fillRect ⟨l.x, y, w, l.rowH o⟩ .page true ops
      · rw [if_neg hl, if_neg hl, List.nil_append]
  · rw [if_neg hbg, if_neg hbg, List.nil_append]

/-- The rule under spaces reads: black on the page, or white where the background is solid. -/
def LeadReads : Prop := (leadGround o l).Takes (!invert)

/-- **The spaces in front of a word** are treated as they should be, exactly if the rule under them
reads. -/
theorem treated_leadOps_iff :
    Treated o l y w invert true (leadOps o invert w l y) ↔
      (l.underline = true → LeadReads o l invert) := by
  have hrest : (l.underline = true → .drawHline l.x (y + l.rowH o - 2) w (!invert)
        ∈ leadOps o invert w l y) ∧ ∀ op ∈ leadOps o invert w l y, isGlyphOp op = false := by
    refine ⟨fun hu => List.mem_append_right _ (mem_underlineOps o l y w invert hu), ?_⟩
    intro op hop
    rcases List.mem_append.mp hop with hop | hop
    · split at hop
      · exact isGlyphOp_of_mem_bgOps o l _ y w hop
      · cases hop
    · exact isGlyphOp_of_mem_underlineOps o l y w invert hop
  -- there is no ink but the rule
  have hreads : InkReads ⟨l.x, y, w, l.rowH o⟩ .page (leadOps o invert w l y) ↔
      (l.underline = true → LeadReads o l invert) := by
    rw [leadOps, inkReads_lead, underlineOps, LeadReads]
    split
    next hu => exact (inkReads_hline ..).trans ⟨fun hc _ => hc.1, fun hc => ⟨hc hu, trivial⟩⟩
    next hu => exact ⟨fun _ hc => absurd hc hu, fun _ => trivial⟩
  exact ⟨fun h => hreads.mp h.reads, fun h => ⟨hreads.mpr h, hrest.1, fun _ => hrest.2⟩⟩

/-! ## Whole runs -/

namespace PageRenderer

variable (t : Span) {r : PageRenderer}

/-- A visible cell that is laid out from `r` to `s` is treated as it should be. -/
def CellTreated (r s : PageRenderer) (k : Nat) : Prop :=
  r.rowVisible = true → Treated o r.toLayout r.screenY (UInt16.ofNat r.advance) invert
    (isBlank (t.glyph k)) (newOps r s)

/-- A cell of a broken word is treated as it should be, and as the same cell of an ordinary word. -/
def BrokenTreated (r : PageRenderer) (k : Nat) : Prop :=
  CellTreated o invert t (r.wrapIfNeeded o r.advance) (r.emitBrokenCell o t invert k) k ∧
    newOps (r.wrapIfNeeded o r.advance) (r.emitBrokenCell o t invert k)
      = newOps (r.wrapIfNeeded o r.advance)
          ((r.wrapIfNeeded o r.advance).emitCell o t invert k)

/-- Visible spaces in front of a word, if they are not dropped, are treated as they should be. -/
def LeadTreated (r : PageRenderer) (w : Word) : Prop :=
  ¬ Wraps t r.leftEdge r.advance r.x w → leadW r.advance w ≠ 0 → r.rowVisible = true →
    Treated o r.toLayout r.screenY (leadW r.advance w) invert true
      (newOps r (r.breakOrLead o t invert w))

/-- Every cell of a word is treated as it should be, on either path. -/
def WordTreated (r : PageRenderer) (w : Word) : Prop :=
  if TooLong t r.leftEdge r.advance w then
    Runs.Along (emitBrokenCell o t invert) (BrokenTreated o invert t) r (t.steps w.i w.w)
  else
    LeadTreated o invert t r w ∧
      Runs.Along (emitCell o t invert)
        (fun r k => CellTreated o invert t r (r.emitCell o t invert k) k)
        (r.breakOrLead o t invert w) (t.steps w.sp w.w)

/-- **Every cell of a run of prose is treated as it should be.** -/
def RunTreated (r : PageRenderer) : Prop :=
  r.literal = true ∨ Runs.Along (emitWord o t invert) (WordTreated o invert t) r.guardIndent t.words

/-- A cell of a broken word that is visible has a glyph, in a run that draws nothing but glyphs. -/
def BrokenBare (r : PageRenderer) (k : Nat) : Prop :=
  (r.wrapIfNeeded o r.advance).rowVisible = true →
    Bare r.toLayout invert ∧ isBlank (t.glyph k) = false

/-- The rule under visible spaces reads. -/
def LeadBare (r : PageRenderer) (w : Word) : Prop :=
  ¬ Wraps t r.leftEdge r.advance r.x w → leadW r.advance w ≠ 0 → r.rowVisible = true →
    r.underline = true → LeadReads o r.toLayout invert

/-- A word that is drawn as it should be. -/
def WordBare (r : PageRenderer) (w : Word) : Prop :=
  if TooLong t r.leftEdge r.advance w then
    Runs.Along (emitBrokenCell o t invert) (BrokenBare o invert t) r (t.steps w.i w.w)
  else LeadBare o invert t r w

/-- **A run that is drawn as it should be**: no visible cell of a broken word is blank or wants more
than a glyph, and the rule under visible spaces reads. -/
def RunBare (r : PageRenderer) : Prop :=
  r.literal = true ∨ Runs.Along (emitWord o t invert) (WordBare o invert t) r.guardIndent t.words

/-- What a codepoint of the row's face issues. -/
theorem newOps_emitGlyph (d : List UInt8 → Drawing) (r : PageRenderer) (k : Nat) :
    newOps r (r.emitGlyph o t d k)
      = if r.rowVisible then d (t.glyph k) r.toLayout r.screenY else [] :=
  newOps_paint (d (t.glyph k))
    (r.noteUnless (r.faceHas o (codepointOf (t.glyph k))) (codepointOf (t.glyph k)))

/-- **A cell of a broken word.** -/
theorem brokenTreated_iff (r : PageRenderer) (k : Nat) :
    BrokenTreated o invert t r k ↔ BrokenBare o invert t r k := by
  have hpen : OnlyPen r (r.wrapIfNeeded o r.advance) := onlyPen_wrapIfNeeded r.advance r
  have hbare : Bare (r.wrapIfNeeded o r.advance).toLayout invert ↔ Bare r.toLayout invert := by
    rw [hpen.layout_eq]
    exact Iff.rfl
  rw [BrokenTreated, BrokenBare, CellTreated, emitBrokenCell, emitCell, newOps_emitGlyph,
    newOps_emitGlyph, ← hbare]
  -- what matters is the row the cell comes to lie on
  generalize r.wrapIfNeeded o r.advance = q
  by_cases hv : q.rowVisible = true
  · simp only [hv, if_true, forall_true_left]
    exact treated_brokenOps_iff o q.toLayout q.screenY invert (t.glyph k)
  · simp [hv]

/-- **The spaces in front of a word.** -/
theorem leadTreated_iff (r : PageRenderer) (w : Word) :
    LeadTreated o invert t r w ↔ LeadBare o invert t r w := by
  refine forall_congr' fun hwrap => forall_congr' fun hlead => forall_congr' fun hv => ?_
  have hops : newOps r (r.breakOrLead o t invert w)
      = leadOps o invert (leadW r.advance w) r.toLayout r.screenY := by
    rw [breakOrLead, if_neg hwrap, if_neg hlead]
    exact (newOps_paint _ r).trans (if_pos hv)
  rw [hops]
  exact treated_leadOps_iff o r.toLayout r.screenY _ invert

/-- **A word.** -/
theorem wordTreated_iff (r : PageRenderer) (i : Nat) :
    WordTreated o invert t r (t.wordAt i) ↔ WordBare o invert t r (t.wordAt i) := by
  rw [WordTreated, WordBare]
  split
  · exact Runs.along_congr (fun r k _ => brokenTreated_iff o invert t r k) r
  · rw [leadTreated_iff]
    -- the cells of an ordinary word need no condition
    refine and_iff_left (Runs.along_of_forall (fun r k hk => ?_) _)
    intro hv
    rw [emitCell, newOps_emitGlyph, if_pos hv]
    exact treated_cellOps o _ _ invert _ (isBlank_glyph t (t.not_isSpace_of_mem_steps hk))

/-- **The cells of a run are all treated as they should be if and only if the run is bare** where a
word is broken, and where a rule runs under spaces. -/
theorem runTreated_iff (r : PageRenderer) : RunTreated o invert t r ↔ RunBare o invert t r := by
  refine or_congr Iff.rfl (Runs.along_congr (fun r w hw => ?_) _)
  obtain ⟨hat, -⟩ := t.eq_wordAt_of_mem_words hw
  rw [hat]
  exact wordTreated_iff o invert t r w.i

/-- A word of 67 letters. -/
def longWord : Span := ⟨fun _ => 0x61, 67⟩

/-- A black background. -/
def onBlack : Style := { bg := { isDefault := false, isValid := true, rgb := 0 } }

/-- **A long word on a black background** is drawn in white on the white page. -/
theorem long_word_white_on_white : ¬ RunTreated { fonts := Display.blankFonts } true longWord
    (((fresh fun _ => 0).begin 0).openText { fonts := Display.blankFonts } longWord onBlack) := by
  rintro (hlit | halong)
  · cases hlit
  · have hwords : longWord.words = [⟨0, 0, 67⟩] := by decide
    rw [hwords] at halong
    have hword := halong.1
    rw [WordTreated, if_pos (by decide)] at hword
    have hcells : longWord.steps 0 67 = 0 :: longWord.steps 1 67 := by decide
    rw [hcells] at hword
    -- nothing has been painted for the first cell when its glyph is drawn
    have hread : false = true := (hword.1.1 (by decide)).reads.1 false rfl
    cases hread

end PageRenderer

end Thicket.Page
