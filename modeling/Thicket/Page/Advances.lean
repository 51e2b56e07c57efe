import Thicket.Page.Table

/-! # What a callback lays out

A row ends where a line of the page does, where prose wraps in front of a word, and where a word is
broken at the margin. The rows and gaps of a callback are listed here from the renderer it finds,
each under the condition that the source has for it; what moves `_y` down in the callback is that
list. -/

namespace Thicket.Page

open Thicket.Lcd Thicket.Page.Span

/-- The rows and gaps of a log. -/
def advancesOf (log : List Entry) : List Advance :=
  log.filterMap fun
    | .draw _ _ => none
    | .down a => some a

@[simp] theorem advancesOf_append (l m : List Entry) :
    advancesOf (l ++ m) = advancesOf l ++ advancesOf m :=
  List.filterMap_append

/-- Drawing lays out nothing. -/
@[simp] theorem advancesOf_draws (y : UInt16) (ops : List LcdOp) :
    advancesOf (ops.map (.draw y)) = [] := by
  simp [advancesOf]

namespace PageRenderer

variable (o : Options) (t : Span) (invert : Bool)

/-! ## Rows of a run -/

/-- The row that ends in front of a cell which the line has no room for. -/
def wrapRow (nextW : Nat) (r : PageRenderer) : List Advance :=
  if r.leftEdge < r.x.toNat ∧ right < r.x.toNat + nextW then [.row r.ownRowH] else []

/-- The rows that end in a word: one in front of it, or those that it is broken over. -/
def wordRows (r : PageRenderer) (w : Word) : List Advance :=
  if TooLong t r.leftEdge r.advance w then
    Runs.outputs (emitBrokenCell o t invert) (fun r _ => r.wrapRow r.advance) r (t.steps w.i w.w)
  else if Wraps t r.leftEdge r.advance r.x w then [.row r.ownRowH]
  else []

/-- The rows that end in a run: none in a preformatted one. -/
def runRows (r : PageRenderer) : List Advance :=
  if r.literal then []
  else Runs.outputs (emitWord o t invert) (wordRows o t invert) r.guardIndent t.words

/-- Those of a run in the row's inversion. -/
def rowsHere (r : PageRenderer) : List Advance := r.runRows o t r.invert

/-- Those of two runs, one after the other. -/
def rowsOfBoth (t u : Span) (r : PageRenderer) : List Advance :=
  r.rowsHere o t ++ (r.emitHere o t).rowsHere o u

/-- Those of a checkbox or a radio button: of its label. -/
def boxRows (f : Field) (r : PageRenderer) : List Advance :=
  if f.label.len = 0 then []
  else ((r.drawBox f).penOver (UInt16.ofNat fontAdvance)).rowsOfBoth o (.ofList [0x20]) f.label

/-! ## Lines of a table -/

/-- The rows that end in a slice. -/
def sliceRows (row ln : Nat) (r : PageRenderer) (c : Nat) : List Advance :=
  if ((r.cell row c).slice (r.colW c) ln).len = 0 then []
  else (r.toColumn c).runRows o ((r.cell row c).slice (r.colW c) ln) false

/-- A line of a table, behind the rows that end in its slices. -/
def lineAdvances (row : Nat) (r : PageRenderer) (ln : Nat) : List Advance :=
  (if r.rowVisible then
      Runs.outputs (emitSlice o row ln) (sliceRows o row ln) r (List.range r.tableCols)
    else []) ++ [.tableLine]

/-- The lines of a row. -/
def rowAdvances (r : PageRenderer) (row : Nat) : List Advance :=
  Runs.outputs (tableLine o row) (lineAdvances o row) r (List.range (r.rowLines row))

/-- A table: its rows and the gap under it, if there is anything to draw. -/
def tableAdvances (r : PageRenderer) : List Advance :=
  if r.tRows = 0 ∨ r.tableCols = 0 then []
  else if r.nothingToScale (tableAvail r.toLayout) then []
  else Runs.outputs (tableRow o) (rowAdvances o) r.fitTable (List.range r.tRows) ++ [.tableGap]

/-! ## Callbacks -/

/-- **What a callback lays out.** -/
def advances (r : PageRenderer) : Callback → List Advance
  | .blankLine => if r.blankPending then [] else [.blankGap]
  | .text t s => (r.openText o t s).rowsHere o t
  | .link label _ s => (r.setDepth s).freshRow.rowsHere o label
  | .divider _ _ => []
  | .field f s => if f.kind = .text then [] else (r.setDepth s).freshRow.boxRows o f
  | .anchor => []
  | .lineEnd s => .row r.ownRowH :: if s.heading then [.headGap (r.head == .h1)] else []
  | .tableBegin _ => []
  | .tableRow _ _ => []
  | .tableEnd s => (r.setDepth s).tableAdvances o
  | .image alt url s =>
      (r.setDepth s).rowsOfBoth o (.ofList [0x5B, 0x69, 0x6D, 0x67, 0x5D, 0x20])
        (if alt.len = 0 then url else alt)
  | .part url s =>
      (r.setDepth s).rowsHere o (.ofList [0x5B, 0x2B, 0x5D, 0x20])
        ++ (((r.setDepth s).emitHere o (.ofList [0x5B, 0x2B, 0x5D, 0x20])).setDepth
          s).freshRow.rowsHere o url

/-- **What a page lays out.** -/
def laid (r : PageRenderer) (cs : List Callback) : List Advance :=
  Runs.outputs (step o) (advances o) r cs

end PageRenderer

/-! ## The log has the same -/

/-- Between two states these rows and gaps have been laid out. -/
def LaysOut (r s : PageRenderer) (as : List Advance) : Prop :=
  ∃ m, s.log = r.log ++ m ∧ advancesOf m = as

variable {o : Options} {t : Span} {invert : Bool} {r s u : PageRenderer} {as bs : List Advance}

/-- The log is left alone. -/
theorem LaysOut.of_eq (h : s.log = r.log) : LaysOut r s [] :=
  ⟨[], by rw [h, List.append_nil], rfl⟩

/-- One piece after another. -/
theorem LaysOut.trans (h : LaysOut r s as) (k : LaysOut s u bs) : LaysOut r u (as ++ bs) := by
  obtain ⟨m, hm, rfl⟩ := h
  obtain ⟨m', hm', rfl⟩ := k
  exact ⟨m ++ m', by rw [hm', hm, List.append_assoc], advancesOf_append m m'⟩

/-- What leaves the log alone, and then a piece. -/
theorem LaysOut.after (h : s.log = r.log) (k : LaysOut s u as) : LaysOut r u as :=
  (LaysOut.of_eq h).trans k

/-- A piece, and then what lays out nothing. -/
theorem LaysOut.andNone (h : LaysOut r s as) (k : LaysOut s u []) : LaysOut r u as :=
  List.append_nil as ▸ h.trans k

/-- Steps, one after the other. -/
theorem LaysOut.run {ι : Type} {step : PageRenderer → ι → PageRenderer}
    {out : PageRenderer → ι → List Advance} (h : ∀ r i, LaysOut r (step r i) (out r i))
    (r : PageRenderer) (is : List ι) :
    LaysOut r (Runs.run step r is) (Runs.outputs step out r is) := by
  induction is generalizing r with
  | nil => exact .of_eq rfl
  | cons i is ih => exact (h r i).trans (ih (step r i))

/-- The log behind it. -/
theorem LaysOut.advancesOf_log (h : LaysOut r s as) :
    advancesOf s.log = advancesOf r.log ++ as := by
  obtain ⟨m, hm, rfl⟩ := h
  rw [hm, advancesOf_append]

namespace PageRenderer

/-- Calls on the driver. -/
theorem laysOut_issue (d : Drawing) (r : PageRenderer) : LaysOut r (r.issue d) [] :=
  ⟨_, rfl, advancesOf_draws _ _⟩

/-- Calls under a visibility test. -/
theorem laysOut_paint (d : Drawing) (r : PageRenderer) : LaysOut r (r.paint d) [] := by
  rw [paint]
  split
  · exact laysOut_issue d r
  · exact .of_eq rfl

/-- A row or a gap. -/
theorem laysOut_down (a : Advance) (h : UInt16) (r : PageRenderer) : LaysOut r (r.down a h) [a] :=
  ⟨[.down a], rfl, rfl⟩

/-- A new line. -/
theorem laysOut_newline (r : PageRenderer) : LaysOut r (r.newline o) [.row r.ownRowH] :=
  laysOut_down (.row r.ownRowH) (r.rowH o) r

/-- A codepoint of the row's face. -/
theorem laysOut_emitGlyph (d : List UInt8 → Drawing) (r : PageRenderer) (k : Nat) :
    LaysOut r (r.emitGlyph o t d k) [] :=
  .after (s := r.noteUnless _ _) rfl (laysOut_paint (d (t.glyph k)) _)

/-- Codepoints of the row's face. -/
theorem laysOut_emitCells (ks : List Nat) (r : PageRenderer) :
    LaysOut r (Runs.run (emitCell o t invert) r ks) [] := by
  induction ks generalizing r with
  | nil => exact .of_eq rfl
  | cons k ks ih => exact (laysOut_emitGlyph (cellOps o invert) r k).trans (ih _)

/-- The break in front of a cell. -/
theorem laysOut_wrapIfNeeded (nextW : Nat) (r : PageRenderer) :
    LaysOut r (r.wrapIfNeeded o nextW) (r.wrapRow nextW) := by
  rw [wrapIfNeeded, wrapRow]
  split
  · exact laysOut_newline r
  · exact .of_eq rfl

/-- The break in front of a word, or its spaces. -/
theorem laysOut_breakOrLead (r : PageRenderer) (w : Word) :
    LaysOut r (r.breakOrLead o t invert w)
      (if Wraps t r.leftEdge r.advance r.x w then [.row r.ownRowH] else []) := by
  rw [breakOrLead]
  split
  · exact laysOut_newline r
  · split
    · exact .of_eq rfl
    · exact laysOut_paint (leadOps o invert (leadW r.advance w)) r

/-- A word. -/
theorem laysOut_emitWord (r : PageRenderer) (w : Word) :
    LaysOut r (r.emitWord o t invert w) (r.wordRows o t invert w) := by
  rw [emitWord, wordRows]
  split
  · exact .run (fun r k => (laysOut_wrapIfNeeded r.advance r).andNone
      (laysOut_emitGlyph (brokenOps o invert) _ k)) r _
  · exact (laysOut_breakOrLead r w).andNone (laysOut_emitCells _ _)

/-- A preformatted line. -/
theorem laysOut_emitLiteralFrom (ks : List Nat) (r : PageRenderer) :
    LaysOut r (emitLiteralFrom o t invert ks r) [] := by
  induction ks generalizing r with
  | nil => exact .of_eq rfl
  | cons k ks ih =>
    rw [emitLiteralFrom]
    split
    · exact laysOut_paint (clipOps o invert) r
    · have hcell : LaysOut r (r.emitLiteralCell o t invert k) [] :=
        .after (s := r.noteUnless _ _) rfl (laysOut_paint (literalOps o invert (t.glyph k)) _)
      exact hcell.trans (ih _)

/-- **A run.** -/
theorem laysOut_emitRun (r : PageRenderer) : LaysOut r (r.emitRun o t invert)
    (r.runRows o t invert) := by
  rw [emitRun, runRows]
  split
  · exact .after (s := r.freshRow) rfl (laysOut_emitLiteralFrom _ _)
  · exact .after (s := r.guardIndent) rfl (.run laysOut_emitWord _ _)

/-- Two runs. -/
theorem laysOut_both (t u : Span) (r : PageRenderer) :
    LaysOut r ((r.emitHere o t).emitHere o u) (r.rowsOfBoth o t u) :=
  (laysOut_emitRun r).trans (laysOut_emitRun _)

/-- A divider. -/
theorem laysOut_drawDivider (ch : UInt32) (r : PageRenderer) :
    LaysOut r (r.drawDivider o ch) [] := by
  rw [drawDivider]
  split
  · exact .after (s := r.noteUnless _ _) rfl (laysOut_issue (dividerOps ch) _)
  · exact .of_eq rfl

/-- A text field. -/
theorem laysOut_textField (f : Field) (s : Style) (r : PageRenderer) :
    LaysOut r (r.textField o f s) [] := by
  have hcells (n vk : Nat) (r : PageRenderer) : LaysOut r (fieldCells f s n vk r) [] := by
    induction n generalizing vk r with
    | zero => exact .of_eq rfl
    | succ n ih =>
      rw [fieldCells]
      split
      · exact .of_eq rfl
      · exact (laysOut_paint (fieldCellOps f s vk) r).trans (ih _ _)
  exact (laysOut_paint _ r).trans (hcells _ _ _)

/-- A checkbox or a radio button with its label. -/
theorem laysOut_boxField (f : Field) (r : PageRenderer) :
    LaysOut r (r.boxField o f) (r.boxRows o f) := by
  have hbox : LaysOut r (r.drawBox f) [] := by
    rw [drawBox]
    split
    · exact .after (s := r.freshRow) rfl (laysOut_issue (boxOps f) _)
    · exact .of_eq rfl
  have hover : LaysOut r ((r.drawBox f).penOver (UInt16.ofNat fontAdvance)) [] :=
    hbox.trans (.of_eq rfl)
  rw [boxField, boxLabel, boxRows]
  split
  · exact hover
  · exact hover.trans (laysOut_both (.ofList [0x20]) f.label _)

/-- `onLineEnd`. -/
theorem laysOut_onLineEnd (s : Style) (r : PageRenderer) :
    LaysOut r (r.onLineEnd o s) (r.advances o (.lineEnd s)) := by
  have hrule : LaysOut r ((r.setDepth s).drawHeadRule o s) [] := by
    rw [drawHeadRule]
    split
    · exact laysOut_paint (headRuleOps o s) (r.setDepth s)
    · exact .of_eq rfl
  have hrow : ((r.setDepth s).drawHeadRule o s).ownRowH = r.ownRowH := by
    rw [drawHeadRule]
    split
    · rw [toLayout_paint]
      rfl
    · rfl
  have hline : LaysOut r (((r.setDepth s).drawHeadRule o s).newline o) [.row r.ownRowH] :=
    hrow ▸ hrule.trans (laysOut_newline _)
  refine hline.trans ?_
  show LaysOut _ (headGap s (r.head == .h1) _)
    (if s.heading then [.headGap (r.head == .h1)] else [])
  rw [headGap]
  split
  · exact laysOut_down _ _ _
  · exact .of_eq rfl

/-! ## Tables -/

/-- A slice. -/
theorem laysOut_emitSlice (row ln : Nat) (r : PageRenderer) (c : Nat) :
    LaysOut r (r.emitSlice o row ln c) (r.sliceRows o row ln c) := by
  rw [emitSlice, sliceRows]
  split
  · exact .of_eq rfl
  · exact .after (s := r.toColumn c) rfl (laysOut_emitRun _)

/-- A line of a row. -/
theorem laysOut_tableLine (row : Nat) (r : PageRenderer) (ln : Nat) :
    LaysOut r (r.tableLine o row ln) (r.lineAdvances o row ln) := by
  refine LaysOut.trans (s := r.drawLine o row ln) ?_ (laysOut_down .tableLine o.lineH _)
  rw [drawLine]
  split
  · exact (LaysOut.run (laysOut_emitSlice row ln) r _).andNone (laysOut_issue _ _)
  · exact .of_eq rfl

/-- A row. -/
theorem laysOut_tableRow (r : PageRenderer) (row : Nat) :
    LaysOut r (r.tableRow o row) (r.rowAdvances o row) := by
  have hlines : LaysOut r (Runs.run (tableLine o row) r (List.range (r.rowLines row))) _ :=
    .run (laysOut_tableLine row) r _
  refine hlines.andNone ?_
  show LaysOut _ (ruleHeader row _) []
  rw [ruleHeader]
  split
  · exact laysOut_paint _ _
  · exact .of_eq rfl

/-- **A table.** -/
theorem laysOut_tableFlush (r : PageRenderer) :
    LaysOut r (r.tableFlush o) (r.tableAdvances o) := by
  rw [tableFlush, tableAdvances]
  split_ifs
  · exact .of_eq rfl
  · exact .of_eq rfl
  · have hrows : LaysOut r (Runs.run (tableRow o) r.fitTable (List.range r.tRows)) _ :=
      .after (s := r.fitTable) rfl (.run laysOut_tableRow r.fitTable _)
    exact (hrows.andNone (laysOut_paint closingOps _)).trans (laysOut_down _ _ _)

/-! ## Whole pages -/

/-- **A callback lays out what is listed for it.** -/
theorem laysOut_step (r : PageRenderer) (c : Callback) :
    LaysOut r (r.step o c) (r.advances o c) := by
  cases c with
  | blankLine =>
    show LaysOut r (r.blankLine o) (if r.blankPending then [] else [.blankGap])
    rw [blankLine]
    split
    · exact .of_eq rfl
    · exact laysOut_down .blankGap o.lineH r
  | text t s => exact .after (s := r.openText o t s) rfl (laysOut_emitRun _)
  | link label target s =>
    exact .after (s := (r.setDepth s).freshRow) rfl (laysOut_emitRun (t := label) _)
  | divider ch s => exact .after (s := (r.setDepth s).freshRow) rfl (laysOut_drawDivider ch _)
  | field f s =>
    refine .after (s := (r.setDepth s).freshRow) rfl ?_
    show LaysOut _ (r.onField o f s) (if f.kind = .text then [] else _)
    rw [onField]
    split
    · exact laysOut_textField f s _
    · exact laysOut_boxField f _
  | anchor => exact .of_eq rfl
  | lineEnd s => exact laysOut_onLineEnd s r
  | tableBegin s => exact .of_eq rfl
  | tableRow row s => exact .of_eq rfl
  | tableEnd s => exact .after (s := r.setDepth s) rfl (laysOut_tableFlush _)
  | image alt url s => exact .after (s := r.setDepth s) rfl (laysOut_both _ _ _)
  | part url s =>
    have hmark : LaysOut r ((r.setDepth s).emitHere o (.ofList [0x5B, 0x2B, 0x5D, 0x20])) _ :=
      .after (s := r.setDepth s) rfl (laysOut_emitRun _)
    exact hmark.trans (.after (s := (PageRenderer.setDepth s _).freshRow) rfl
      (laysOut_emitRun (t := url) _))

/-- **So does a page.** -/
theorem laysOut_run (r : PageRenderer) (cs : List Callback) :
    LaysOut r (Runs.run (step o) r cs) (r.laid o cs) :=
  .run laysOut_step r cs

end PageRenderer

end Thicket.Page
