import Thicket.Page.Slices

/-! # Every callback returns

Over any number of passes: all rectangles that the renderer issues fit 16 bits, and so every call
on the driver returns, exactly when before each callback the pen meets the condition of what the
callback draws. -/

namespace Thicket.Page

open Thicket.Lcd Thicket.Page.Span

/-! ## The conditions -/

namespace PageRenderer

/-- A run in the row's inversion fits. -/
def HereFits (o : Options) (t : Span) (r : PageRenderer) : Prop := RunFits o t r.invert r

/-- **The bar of a dark text field** begins within the margin, where it is drawn. -/
def BarFits (s : Style) (r : PageRenderer) : Prop :=
  s.hasBg = true → lumaOf s.bg < 128 → r.rowVisible = true → r.x.toNat ≤ right

/-- The label of a box fits, with the space in front of it. -/
def LabelFits (o : Options) (f : Field) (r : PageRenderer) : Prop :=
  f.label.len = 0 ∨
    HereFits o (.ofList [0x20]) r ∧ HereFits o f.label (r.emitHere o (.ofList [0x20]))

/-- **The rule under a deep heading** ends right of the left edge, where it is drawn. -/
def RuleFits (s : Style) (r : PageRenderer) : Prop :=
  r.headRule = true → r.rowOpen = true → r.rowVisible = true → 2 < s.depth →
    r.leftEdge ≤ r.x.toNat

/-- **The condition of a callback**, on the state before it. -/
def StepFits (o : Options) (r : PageRenderer) : Callback → Prop
  | .text t s => HereFits o t (r.openText o t s)
  | .link label _ s => HereFits o label (r.setDepth s).freshRow
  | .field f s =>
      let r := (r.setDepth s).freshRow
      if f.kind = .text then BarFits s r
      else LabelFits o f ((r.drawBox f).penOver (UInt16.ofNat fontAdvance))
  | .lineEnd s => RuleFits s (r.setDepth s)
  | .image alt url s =>
      let r := r.setDepth s
      let tag := Span.ofList [0x5B, 0x69, 0x6D, 0x67, 0x5D, 0x20]
      HereFits o tag r ∧ HereFits o (if alt.len = 0 then url else alt) (r.emitHere o tag)
  | .part url s =>
      let r := r.setDepth s
      let tag := Span.ofList [0x5B, 0x2B, 0x5D, 0x20]
      HereFits o tag r ∧ HereFits o url ((r.emitHere o tag).setDepth s).freshRow
  | .blankLine | .divider _ _ | .anchor | .tableBegin _ | .tableRow _ _ | .tableEnd _ => True

variable {o : Options} {r : PageRenderer}

/-- A run in the row's inversion. -/
theorem rectsFit_emitHere (hr : Ready r) (t : Span) :
    Ready (r.emitHere o t) ∧ (RectsFit (r.emitHere o t) ↔ RectsFit r ∧ HereFits o t r) :=
  ⟨(onlyPen_emitRun t r.invert r).ready hr, rectsFit_emitRun t r.invert hr⟩

/-- The depth is set. -/
theorem ready_setDepth (hr : Ready r) (s : Style) : Ready (r.setDepth s) :=
  ⟨hr.clip_eq, hr.ownRowH_le, hr.tableCols_le⟩

/-- The depth is set and a fresh row restarts. -/
theorem ready_startRow (hr : Ready r) (s : Style) : Ready (r.setDepth s).freshRow :=
  ⟨hr.clip_eq, hr.ownRowH_le, hr.tableCols_le⟩

/-! ## Text, links, dividers -/

/-- The face of a heading and its leading are not too high. -/
theorem ready_openText (hr : Ready r) (t : Span) (s : Style) : Ready (r.openText o t s) := by
  refine ⟨hr.clip_eq, ?_, hr.tableCols_le⟩
  show (if Climbs o t s _ then
      UInt16.ofNat (headCellH (wantedHead s.depth) + o.leading.toNat) else r.ownRowH).toNat ≤ 281
  split
  · have hcell : headCellH (wantedHead s.depth) ≤ 26 := by
      unfold wantedHead
      split_ifs <;> decide
    have hlead := o.leading.toNat_lt
    rw [UInt16.toNat_ofNat']
    omega
  · exact hr.ownRowH_le

/-- A divider is text. -/
theorem rectsFit_onDivider (hr : Ready r) (ch : UInt32) (s : Style) :
    Ready (r.onDivider o ch s) ∧ (RectsFit (r.onDivider o ch s) ↔ RectsFit r) := by
  have hrow := ready_startRow hr s
  have hdraw : Ready ((r.setDepth s).freshRow.drawDivider o ch) ∧
      (RectsFit ((r.setDepth s).freshRow.drawDivider o ch) ↔ RectsFit r) := by
    unfold drawDivider
    split
    · refine ⟨⟨hr.clip_eq, hr.ownRowH_le, hr.tableCols_le⟩, ?_⟩
      rw [rectsFit_issue]
      refine and_iff_left fun op hop => ?_
      obtain ⟨x, -, rfl⟩ := List.mem_map.mp hop
      trivial
    · exact ⟨hrow, Iff.rfl⟩
  exact ⟨⟨hdraw.1.clip_eq, hdraw.1.ownRowH_le, hdraw.1.tableCols_le⟩, hdraw.2⟩

/-! ## Fields -/

/-- The width of a bar: cut at the margin it ends there, unless it begins beyond it. -/
theorem bar_fits_iff (x : UInt16) {w : Nat} (hw : w ≤ 255) :
    x.toNat + (if x.toNat + w * fontAdvance ≤ right then UInt16.ofNat (w * fontAdvance)
      else UInt16.ofNat right - x).toNat ≤ 65535 ↔ x.toNat ≤ right := by
  have hright : right = 398 := rfl
  have hx := x.toNat_lt
  rw [fontAdvance, hright]
  split
  next hfit =>
    rw [UInt16.toNat_ofNat']
    omega
  next hcut =>
    -- the bar is cut at the margin, but behind it the difference wraps
    have hmargin : (UInt16.ofNat 398).toNat = 398 := rfl
    rw [UInt16.toNat_sub, hmargin]
    omega

/-- **The bar of a text field.** -/
theorem rectsFit_fieldBar (hr : Ready r) {w : Nat} (hw : w ≤ 255) (s : Style) :
    RectsFit (r.paint (fieldBarOps o w s)) ↔ RectsFit r ∧ BarFits s r := by
  rw [rectsFit_paint]
  refine and_congr_right fun _ => ?_
  unfold BarFits fieldBarOps
  by_cases hbg : s.hasBg = true
  · by_cases hdark : lumaOf s.bg < 128
    · simp only [hbg, hdark, Bool.true_and, if_true, decide_true, List.mem_singleton, forall_eq,
        true_imp_iff]
      refine forall_congr' fun hv => ?_
      rw [hr.fits_fillRect hv, bar_fits_iff r.x hw]
    · simp only [hbg, hdark, if_true, Bool.true_and, decide_false, Bool.false_eq_true, if_false,
        false_imp_iff, true_imp_iff, iff_true]
      intro hv
      exact (hr.fits_bgOps hv _ _ _).mpr fun hluma => absurd hluma.2 hdark
  · simp [hbg]

/-- A cell of a text field is text. -/
theorem fits_fieldCellOps (f : Field) (s : Style) (vk : Nat) (l : Layout) (y : UInt16) :
    ∀ op ∈ fieldCellOps f s vk l y, Fits op := by
  simp only [fieldCellOps]
  split_ifs <;> simp [Fits]

/-- The cells of a text field. -/
theorem rectsFit_fieldCells (hr : Ready r) (f : Field) (s : Style) (n vk : Nat) :
    Ready (fieldCells f s n vk r) ∧ (RectsFit (fieldCells f s n vk r) ↔ RectsFit r) := by
  induction n generalizing vk r with
  | zero => exact ⟨hr, Iff.rfl⟩
  | succ n ih =>
    rw [fieldCells]
    split
    · exact ⟨hr, Iff.rfl⟩
    · have hcell := (onlyPen_piece (fieldCellOps f s vk) (UInt16.ofNat fontAdvance) r).ready hr
      have hfits : RectsFit ((r.paint (fieldCellOps f s vk)).penOver (UInt16.ofNat fontAdvance)) ↔
          RectsFit r := rectsFit_paint_of _ r fun _ => fits_fieldCellOps f s vk _ _
      rw [← hfits]
      exact ih hcell _

/-- A text field. -/
theorem rectsFit_textField (hr : Ready r) (f : Field) (s : Style) :
    Ready (r.textField o f s) ∧
      (RectsFit (r.textField o f s) ↔ RectsFit r ∧ BarFits s r) := by
  have hw : (if f.width = 0 then 1 else f.width.toNat) ≤ 255 := by
    have hwidth := f.width.toNat_lt
    split <;> omega
  unfold textField
  rw [← rectsFit_fieldBar (o := o) hr hw s]
  exact rectsFit_fieldCells ((onlyPen_paint _ r).ready hr) f s _ _

/-- A box is text; its label is a run. -/
theorem rectsFit_boxField (hr : Ready r) (f : Field) :
    Ready (r.boxField o f) ∧ (RectsFit (r.boxField o f) ↔ RectsFit r ∧
      LabelFits o f ((r.drawBox f).penOver (UInt16.ofNat fontAdvance))) := by
  have hbox : Ready ((r.drawBox f).penOver (UInt16.ofNat fontAdvance)) ∧
      (RectsFit ((r.drawBox f).penOver (UInt16.ofNat fontAdvance)) ↔ RectsFit r) := by
    unfold drawBox
    split
    · refine ⟨⟨hr.clip_eq, hr.ownRowH_le, hr.tableCols_le⟩, ?_⟩
      refine Iff.trans (rectsFit_issue (boxOps f) r.freshRow) (and_iff_left ?_)
      simp only [boxOps]
      split_ifs <;> simp [Fits]
    · exact ⟨⟨hr.clip_eq, hr.ownRowH_le, hr.tableCols_le⟩, Iff.rfl⟩
  unfold boxField boxLabel LabelFits
  rw [← hbox.2]
  split
  next hnone => exact ⟨hbox.1, (and_iff_left (.inl hnone)).symm⟩
  next hsome =>
    obtain ⟨hspace, hspacefits⟩ := rectsFit_emitHere (o := o) hbox.1 (.ofList [0x20])
    obtain ⟨hlabel, hlabelfits⟩ := rectsFit_emitHere (o := o) hspace f.label
    rw [hlabelfits, hspacefits, and_assoc, or_iff_right hsome]
    exact ⟨hlabel, Iff.rfl⟩

/-! ## Line ends -/

/-- **The rule under a heading.** -/
theorem rectsFit_drawHeadRule (s : Style) :
    RectsFit (r.drawHeadRule o s) ↔ RectsFit r ∧ RuleFits s r := by
  have hedge := r.leftEdge_bounds
  have hright : right = 398 := rfl
  have hmod : (UInt16.ofNat r.leftEdge).toNat = r.leftEdge := by
    rw [UInt16.toNat_ofNat']
    omega
  have hx := r.x.toNat_lt
  unfold drawHeadRule RuleFits
  by_cases hopen : r.headRule = true ∧ r.rowOpen = true
  · rw [if_pos (by simp [hopen]), rectsFit_paint]
    simp only [hopen, true_imp_iff, headRuleOps, List.mem_singleton, forall_eq, Fits, hmod]
    refine and_congr_right fun _ => forall_congr' fun _ => ?_
    split
    next hle =>
      -- depth 2 rules the content width, which does not depend on the pen
      have hno : ¬ 2 < s.depth := UInt8.not_lt.mpr hle
      simp only [hno, false_imp_iff, iff_true, UInt16.toNat_ofNat']
      omega
    next hgt =>
      -- deeper headings rule from the left edge to the pen, wherever that is
      have hdeep : 2 < s.depth := UInt8.not_le.mp hgt
      simp only [hdeep, true_imp_iff]
      rw [UInt16.toNat_sub, hmod]
      omega
  · rw [if_neg (by simpa using hopen)]
    exact (and_iff_left fun hrule hrow => absurd ⟨hrule, hrow⟩ hopen).symm

/-- The gap under a heading is no rectangle. -/
theorem rectsFit_headGap (s : Style) (wasBig : Bool) (r : PageRenderer) :
    RectsFit (r.headGap s wasBig) ↔ RectsFit r := by
  unfold headGap
  split
  · exact rectsFit_down _ _ r
  · exact Iff.rfl

/-- **A line end.** -/
theorem rectsFit_onLineEnd (hr : Ready r) (s : Style) :
    Ready (r.onLineEnd o s) ∧
      (RectsFit (r.onLineEnd o s) ↔ RectsFit r ∧ RuleFits s (r.setDepth s)) := by
  have hgap := (onlyPen_headGap (o := o) s (r.head == Head.h1) (r.setDepth s)).ready
    (ready_setDepth hr s)
  refine ⟨⟨hgap.clip_eq, Nat.zero_le _, hgap.tableCols_le⟩, ?_⟩
  have hfits := rectsFit_headGap s (r.head == Head.h1) (((r.setDepth s).drawHeadRule o s).newline o)
  rw [rectsFit_newline, rectsFit_drawHeadRule] at hfits
  exact hfits

/-! ## Text, links, images -/

/-- Text. -/
theorem rectsFit_onText (hr : Ready r) (t : Span) (s : Style) :
    Ready (r.onText o t s) ∧
      (RectsFit (r.onText o t s) ↔ RectsFit r ∧ HereFits o t (r.openText o t s)) :=
  rectsFit_emitHere (ready_openText hr t s) t

/-- A link is its label. -/
theorem rectsFit_onLink (hr : Ready r) (label target : Span) (s : Style) :
    Ready (r.onLink o label target s) ∧
      (RectsFit (r.onLink o label target s) ↔
        RectsFit r ∧ HereFits o label (r.setDepth s).freshRow) := by
  obtain ⟨hready, hfits⟩ := rectsFit_emitHere (o := o) (ready_startRow hr s) label
  exact ⟨⟨hready.clip_eq, hready.ownRowH_le, hready.tableCols_le⟩, hfits⟩

/-- A field. -/
theorem rectsFit_onField (hr : Ready r) (f : Field) (s : Style) :
    Ready (r.onField o f s) ∧
      (RectsFit (r.onField o f s) ↔ RectsFit r ∧ StepFits o r (.field f s)) := by
  have hrow := ready_startRow hr s
  unfold onField StepFits
  dsimp only
  split
  · exact rectsFit_textField hrow f s
  · exact rectsFit_boxField hrow f

/-- A marker and a second run behind it. -/
theorem rectsFit_emitHere_emitHere (hr : Ready r) (tag t : Span) :
    Ready ((r.emitHere o tag).emitHere o t) ∧
      (RectsFit ((r.emitHere o tag).emitHere o t) ↔
        RectsFit r ∧ HereFits o tag r ∧ HereFits o t (r.emitHere o tag)) := by
  obtain ⟨htag, htagfits⟩ := rectsFit_emitHere (o := o) hr tag
  obtain ⟨ht, htfits⟩ := rectsFit_emitHere (o := o) htag t
  rw [htfits, htagfits, and_assoc]
  exact ⟨ht, Iff.rfl⟩

/-- A partial is a marker and a link. -/
theorem rectsFit_onPartial (hr : Ready r) (url : Span) (s : Style) :
    Ready (r.onPartial o url s) ∧
      (RectsFit (r.onPartial o url s) ↔ RectsFit r ∧ StepFits o r (.part url s)) := by
  obtain ⟨htag, htagfits⟩ := rectsFit_emitHere (o := o) (ready_setDepth hr s)
    (.ofList [0x5B, 0x2B, 0x5D, 0x20])
  obtain ⟨hlink, hlinkfits⟩ := rectsFit_onLink (o := o) htag url url s
  refine ⟨hlink, ?_⟩
  rw [onPartial, hlinkfits, htagfits, and_assoc]
  exact Iff.rfl

/-- A blank line is a gap. -/
theorem rectsFit_blankLine (hr : Ready r) :
    Ready (r.blankLine o) ∧ (RectsFit (r.blankLine o) ↔ RectsFit r) := by
  unfold blankLine
  split
  · exact ⟨hr, Iff.rfl⟩
  · exact ⟨⟨hr.clip_eq, hr.ownRowH_le, hr.tableCols_le⟩, rectsFit_down .blankGap o.lineH r⟩

/-! ## Tables -/

/-- A row adds at most the cells there is room for. -/
theorem addCells_le (row : Span) (b k left i col : Nat) (t : TableState) :
    (TableState.addCells row b k left i col t).1 ≤ col + left ∧
      (TableState.addCells row b k left i col t).2.tableCols = t.tableCols := by
  induction left generalizing i col t with
  | zero => exact ⟨Nat.le_refl col, rfl⟩
  | succ left ih =>
    unfold TableState.addCells
    dsimp only
    split
    · obtain ⟨hcol, hcols⟩ := ih _ (col + 1) _
      exact ⟨by omega, hcols⟩
    · exact ⟨Nat.le_add_right _ _, rfl⟩

/-- **A table has at most `T_COLS` columns.** -/
theorem tableCols_addRow_le (row : Span) {t : TableState} (ht : t.tableCols ≤ tColsMax) :
    (t.addRow row).tableCols ≤ tColsMax := by
  unfold TableState.addRow
  dsimp only
  split_ifs
  · exact ht
  · exact ht
  · obtain ⟨hcol, hcols⟩ := addCells_le row _ t.tRows tColsMax _ 0 _
    exact max_le (hcols.le.trans ht) (hcol.trans (Nat.zero_add _).le)

/-- Drawing a table moves the pen only. -/
theorem ready_onTableEnd (hr : Ready r) (s : Style) : Ready (r.onTableEnd o s) := by
  have hfit : Ready (r.setDepth s).fitTable := ⟨hr.clip_eq, hr.ownRowH_le, hr.tableCols_le⟩
  unfold onTableEnd tableFlush
  split_ifs
  · exact ⟨hr.clip_eq, hr.ownRowH_le, hr.tableCols_le⟩
  · exact hfit
  · have hrows := Runs.run_rel OnlyPen .refl .trans (onlyPen_tableRow (o := o))
      (r.setDepth s).fitTable (List.range (r.setDepth s).fitTable.tRows)
    have hclosed := (hrows.trans (onlyPen_paint closingOps _)).ready hfit
    exact ⟨hclosed.clip_eq, hclosed.ownRowH_le, hclosed.tableCols_le⟩

/-! ## One callback -/

/-- **A callback**: its rectangles fit exactly under its condition. -/
theorem rectsFit_step (hr : Ready r) (c : Callback) :
    Ready (r.step o c) ∧ (RectsFit (r.step o c) ↔ RectsFit r ∧ StepFits o r c) := by
  cases c with
  | blankLine =>
    obtain ⟨hready, hfits⟩ := rectsFit_blankLine (o := o) hr
    exact ⟨hready, hfits.trans (and_iff_left trivial).symm⟩
  | text t s => exact rectsFit_onText hr t s
  | link label target s => exact rectsFit_onLink hr label target s
  | divider ch s =>
    obtain ⟨hready, hfits⟩ := rectsFit_onDivider (o := o) hr ch s
    exact ⟨hready, hfits.trans (and_iff_left trivial).symm⟩
  | field f s => exact rectsFit_onField hr f s
  | anchor => exact ⟨hr, (and_iff_left trivial).symm⟩
  | lineEnd s => exact rectsFit_onLineEnd hr s
  | tableBegin s =>
    exact ⟨⟨hr.clip_eq, hr.ownRowH_le, Nat.zero_le _⟩, (and_iff_left trivial).symm⟩
  | tableRow row s =>
    exact ⟨⟨hr.clip_eq, hr.ownRowH_le, tableCols_addRow_le row hr.tableCols_le⟩,
      (and_iff_left trivial).symm⟩
  | tableEnd s =>
    exact ⟨ready_onTableEnd hr s, (rectsFit_onTableEnd hr s).trans (and_iff_left trivial).symm⟩
  | image alt url s => exact rectsFit_emitHere_emitHere (ready_setDepth hr s) _ _
  | part url s => exact rectsFit_onPartial hr url s

end PageRenderer

/-! ## Passes -/

/-- What the renderer is fed: passes begin, and callbacks follow. -/
inductive Input where
  /-- `begin`. -/
  | begin (scroll : UInt16)
  /-- A callback. -/
  | callback (c : Callback)

open PageRenderer

/-- **One input.** -/
def PageRenderer.feed (o : Options) (r : PageRenderer) : Input → PageRenderer
  | .begin scroll => r.begin scroll
  | .callback c => r.step o c

/-- The condition of an input: `begin` draws nothing. -/
def PageRenderer.FeedFits (o : Options) (r : PageRenderer) : Input → Prop
  | .begin _ => True
  | .callback c => StepFits o r c

/-- **What was drawn returns**: the far edges of every `fill_rect` and `draw_hline` are 16-bit
numbers, and the calls on the driver return one after the other, whatever the fonts and the display
hold. -/
structure DrawsReturn (r : PageRenderer) : Prop where
  /-- The far edges. -/
  fits : RectsFit r
  /-- The driver. -/
  returns : ∀ F d, (Display.execAll F d (issued r.log)).isSome

variable {o : Options} {r : PageRenderer}

/-- Rectangles that fit are enough. -/
theorem drawsReturn_iff : DrawsReturn r ↔ RectsFit r :=
  ⟨DrawsReturn.fits, fun h => ⟨h, fun F d => isSome_execAll_of_fits F d h⟩⟩

/-- Every input leaves the window, the height of the row and the columns within their bounds. -/
theorem ready_feed (hr : Ready r) (i : Input) : Ready (r.feed o i) := by
  cases i with
  | begin scroll => exact ⟨rfl, hr.ownRowH_le, Nat.zero_le _⟩
  | callback c => exact (rectsFit_step hr c).1

/-- An input whose condition holds keeps the rectangles within 16 bits. -/
theorem rectsFit_feed (hr : Ready r) (hfits : RectsFit r) {i : Input} (hok : FeedFits o r i) :
    RectsFit (r.feed o i) := by
  cases i with
  | begin scroll =>
    intro op hop
    cases hop
  | callback c => exact (rectsFit_step hr c).2.mpr ⟨hfits, hok⟩

/-- **Every callback returns exactly when, before each, the pen meets the condition of what the
callback draws**, over any number of passes. -/
theorem drawsReturn_throughout_iff (o : Options) (tbuf : Nat → UInt8) (inputs : List Input) :
    (∀ pre, pre <+: inputs → DrawsReturn (Runs.run (feed o) (fresh tbuf) pre)) ↔
      Runs.Along (feed o) (FeedFits o) (fresh tbuf) inputs := by
  refine Runs.forall_prefix_iff_along (fun r => Ready r ∧ RectsFit r) DrawsReturn
    (fun r h => drawsReturn_iff.mpr h.2)
    (fun r i h hok => ⟨ready_feed h.1 i, rectsFit_feed h.1 h.2 hok⟩) ?_ ?_ inputs
  · -- a callback that breaks its condition leaves a rectangle that does not fit
    intro r i h hno hdraws
    cases i with
    | begin scroll => exact hno trivial
    | callback c => exact hno ((rectsFit_step h.1 c).2.mp hdraws.fits).2
  · refine ⟨⟨rfl, Nat.zero_le _, Nat.zero_le _⟩, fun op hop => ?_⟩
    cases hop

/-- A line of one section depth: a cell against the right margin, a box without a label, and a text
field on black. -/
def darkFieldLine : List Input :=
  [.begin 0, .callback (.text (.ofList [0x78]) { align := .right }),
    .callback (.field { kind := .checkbox } {}),
    .callback (.field { kind := .text, width := 5 } { bg := ⟨false, true, 0⟩ })]

/-- The bar of the field begins behind the margin: its width wraps, and `fill_rect` never
returns. -/
theorem dark_field_hangs :
    ¬ DrawsReturn
        (Runs.run (feed { fonts := Display.blankFonts }) (fresh fun _ => 0) darkFieldLine) ∧
      Display.execAll Display.blankFonts (Display.powerUp fun _ => 0) (issued
        (Runs.run (feed { fonts := Display.blankFonts }) (fresh fun _ => 0) darkFieldLine).log)
        = none := by
  have hbar : LcdOp.fillRect 404 0 65530 15 true ∈ issued
      (Runs.run (feed { fonts := Display.blankFonts }) (fresh fun _ => 0) darkFieldLine).log := by
    decide +kernel
  refine ⟨fun h => absurd (h.fits _ hbar) (by decide), execAll_eq_none (fun e => ?_) hbar _⟩
  exact exec_fillRect_eq_none _ e true (by decide) (by decide)

end Thicket.Page
