import Mathlib.Logic.Function.Basic
import Thicket.Page.Callbacks

/-! # Tables

`onTableBegin`, `onTableRow`, `onTableEnd` and `table_flush`: rows are collected into a bounded
buffer, the columns are fitted to the panel when the table closes, and every cell is drawn slice by
slice with one break rule for counting lines and for drawing them. -/

namespace Thicket.Page

open Thicket.Lcd Thicket.Page.Span

/-- `T_ROWS`. -/
def tRowsMax : Nat := 16
/-- `T_COLS`. -/
def tColsMax : Nat := 6
/-- `T_BYTES`. -/
def tBytes : Nat := 1024
/-- `GAP`: a space between columns. -/
def gap : Nat := 1

/-! ## Collecting rows -/

/-- The text of a cell while its markup is stripped. -/
structure Strip where
  /-- `_tbuf`. -/
  tbuf : Nat → UInt8
  /-- `n`: the bytes kept so far. -/
  n : Nat := 0
  /-- `_table_overflowed`. -/
  overflowed : Bool

namespace Strip

variable (row : Span) (tlen : Nat)

/-- One byte into the buffer. -/
def put (c : UInt8) (s : Strip) : Strip :=
  { s with tbuf := Function.update s.tbuf (tlen + s.n) c, n := s.n + 1 }

/-- The label of a link. -/
def label : List Nat → Strip → Strip
  | [], s => s
  | q :: qs, s =>
      if s.n < 255 then
        if tlen + s.n < tBytes then label qs (s.put tlen (row.byte q))
        else { s with overflowed := true }
      else s

/-- `e`: where a link closes. -/
def linkEnd (ce k : Nat) : Nat := scan (fun q => row.byte q != 0x5D) (fun _ => 1) ce (k + 2)

/-- `stop`: where its label ends, at the first backtick or at the bracket. -/
def labelEnd (ce k : Nat) : Nat :=
  scan (fun q => row.byte q != 0x60) (fun _ => 1) (linkEnd row ce k) (k + 2)

/-- The bytes of a command that are skipped. -/
def skipOf (ce k : Nat) : Nat :=
  let cmd := row.byte (k + 1)
  if cmd = 0x46 ∨ cmd = 0x42 then if k + 2 < ce ∧ row.byte (k + 2) = 0x54 then 9 else 5 else 2

/-- The bytes of a cell from `k` on: commands are stripped and a link leaves its label. -/
def text (ce : Nat) : Nat → Nat → Strip → Strip
  | 0, _, s => s
  | fuel + 1, k, s =>
      if k < ce ∧ s.n < 255 then
        if row.byte k = 0x60 ∧ k + 1 < ce then
          if row.byte (k + 1) = 0x5B then
            let e := linkEnd row ce k
            let stop := labelEnd row ce k
            text ce fuel (if e < ce then e + 1 else ce)
              (label row tlen (List.range' (k + 2) (stop - (k + 2))) s)
          else text ce fuel (min (k + skipOf row ce k) ce) s
        else if tlen + s.n < tBytes then text ce fuel (k + 1) (s.put tlen (row.byte k))
        else { s with overflowed := true }
      else s

end Strip

namespace TableState

/-- A cell: its text into the buffer, its place, and the width of its column. -/
def addCell (row : Span) (r col cs ce : Nat) (t : TableState) : TableState :=
  let s := Strip.text row t.tlen ce (ce - cs) cs ⟨t.tbuf, 0, t.tableOverflowed⟩
  let w := (Span.mk (fun k => s.tbuf (t.tlen + k)) s.n).cells 0 s.n % 256
  { t with
    tbuf := s.tbuf, tableOverflowed := s.overflowed, tlen := (t.tlen + s.n) % 65536
    cellOff := Function.update t.cellOff r (Function.update (t.cellOff r) col t.tlen)
    cellLen := Function.update t.cellLen r (Function.update (t.cellLen r) col s.n)
    colW := if s.n ≠ 0 ∧ t.colW col < w then Function.update t.colW col w else t.colW }

/-- The cells of a row from `i` on, at most `left` of them; the column after the last. -/
def addCells (row : Span) (b r : Nat) : Nat → Nat → Nat → TableState → Nat × TableState
  | 0, _, col, t => (col, t)
  | left + 1, i, col, t =>
      if i ≤ b then
        let cell := scan (fun k => row.byte k != 0x7C) (fun _ => 1) b i
        let cs := scan (fun k => isSpace (row.byte k)) (fun _ => 1) cell i
        let ce := backWhile (fun k => isSpace (row.byte k)) cs cell
        addCells row b r left (cell + 1) (col + 1) (t.addCell row r col cs ce)
      else (col, t)

/-- A bar or a space. -/
def isEdge (c : UInt8) : Bool := c == 0x7C || isSpace c

/-- A byte of a separator row. -/
def isSeparator (c : UInt8) : Bool := c == 0x2D || c == 0x3A || isEdge c

/-- **`onTableRow`**: a separator row is dropped, a row past the bound is reported. -/
def addRow (row : Span) (t : TableState) : TableState :=
  let a := scan (fun k => isEdge (row.byte k)) (fun _ => 1) row.len 0
  let b := backWhile (fun k => isEdge (row.byte k)) a row.len
  if a < b ∧ (List.range' a (b - a)).all fun k => isSeparator (row.byte k) then t
  else if tRowsMax ≤ t.tRows then { t with tableOverflowed := true }
  else
    let r := t.tRows
    let t := { t with cellOff := Function.update t.cellOff r fun _ => 0
                      cellLen := Function.update t.cellLen r fun _ => 0 }
    let (col, t) := addCells row b r tColsMax a 0 t
    { t with tableCols := max t.tableCols col, tRows := r + 1 }

/-- `onTableBegin`. -/
def clear (t : TableState) : TableState :=
  { t with tableCols := 0, tRows := 0, tlen := 0, tableOverflowed := false, colW := fun _ => 0 }

/-- The text of a cell. -/
def cell (t : TableState) (r c : Nat) : Span :=
  ⟨fun k => t.tbuf (t.cellOff r c + k), t.cellLen r c⟩

/-! ## Fitting the columns -/

/-- The sum over the columns. -/
def sumCols (n : Nat) (w : Nat → Nat) : Nat := ((List.range n).map w).sum

/-- No column takes more than half the width before fitting. -/
def capped (avail : Nat) (t : TableState) : Nat → Nat :=
  fun c => if c < t.tableCols then min (t.colW c) (avail / 2) else t.colW c

/-- A column scaled to the room there is: two cells is the floor. -/
def scaled (room sum w : Nat) : Nat := max 2 (w * room / sum)

/-- The first of the widest columns. -/
def widest (n : Nat) (w : Nat → Nat) : Nat :=
  (List.range' 1 (n - 1)).foldl (fun best c => if w best < w c then c else best) 0

/-- Columns that do not fit are scaled, and the widest takes what rounding leaves. -/
def scaleCols (n avail : Nat) (w : Nat → Nat) : Nat → Nat :=
  let room := avail - n * gap
  let sum := sumCols n w
  let w' := fun c => if c < n then scaled room sum (w c) % 256 else w c
  let used := sumCols n fun c => scaled room sum (w c)
  if used < room then
    Function.update w' (widest n w') ((w' (widest n w') + (room - used)) % 256)
  else w'

/-- **The fitting of `table_flush`**: the natural widths where the table fits. -/
def fit (avail : Nat) (t : TableState) : TableState :=
  let w := t.capped avail
  { t with colW :=
      if avail < sumCols t.tableCols (fun c => w c + gap) ∧ sumCols t.tableCols w ≠ 0 then
        scaleCols t.tableCols avail w
      else w }

/-- `if (!sum) return`: nothing to scale. -/
def nothingToScale (avail : Nat) (t : TableState) : Bool :=
  avail < sumCols t.tableCols (fun c => t.capped avail c + gap)
    && sumCols t.tableCols (t.capped avail) == 0

end TableState

/-! ## The break rule -/

namespace Span

/-- `while (e < n && t2 < w) { e += seq_len(p[e]); ++t2; }`. -/
def walk (p : Span) : Nat → Nat → Nat
  | 0, e => e
  | w + 1, e => if e < p.len then walk p w (e + p.seqLenAt e) else e

/-- Where the line that begins at an index ends: at a space, if most of it stays used. -/
def breakLine (p : Span) (w start : Nat) : Nat :=
  let e := p.walk w start
  if e < p.len ∧ p.byte e ≠ 0x20 then
    let brk := backWhile (fun k => p.byte k != 0x20) start e
    if start < brk ∧ (e - start) * 2 ≤ (brk - start) * 3 then brk else e
  else e

/-- Where the next line begins. -/
def nextLine (p : Span) (w start : Nat) : Nat :=
  scan (fun k => p.byte k == 0x20) (fun _ => 1) p.len (p.breakLine w start)

/-- The lines from an index on, counted up to a bound. -/
def linesFrom (p : Span) (w : Nat) : Nat → Nat → Nat
  | 0, _ => 0
  | fuel + 1, start => if start < p.len then linesFrom p w fuel (p.nextLine w start) + 1 else 0

/-- Where a line begins, walking from the start. -/
def lineStart (p : Span) (w : Nat) : Nat → Nat → Nat
  | 0, start => start
  | k + 1, start =>
      if p.len ≤ p.nextLine w start then p.nextLine w start
      else lineStart p w k (p.nextLine w start)

/-- The slice of a cell that belongs to a line. -/
def slice (p : Span) (w ln : Nat) : Span :=
  let start := p.lineStart w ln 0
  p.sub start (p.breakLine w start - start)

end Span

/-- The lines of the tallest cell of a row. -/
def TableState.rowLines (t : TableState) (r : Nat) : Nat :=
  (List.range t.tableCols).foldl (fun lines c =>
    if t.cellLen r c = 0 ∨ t.colW c = 0 then lines
    else max lines ((t.cell r c).linesFrom (t.colW c) 32 0)) 1

namespace PageRenderer

variable (o : Options)

/-! ## Drawing -/

/-- `avail`: the cells of the content width. -/
def tableAvail (l : Layout) : Nat := (right - l.leftEdge) / fontAdvance % 256

/-- Where a column begins. -/
def columnX (l : Layout) (t : TableState) (c : Nat) : UInt16 :=
  UInt16.ofNat (l.leftEdge + TableState.sumCols c fun k => (t.colW k + gap) * fontAdvance)

/-- The pen at the begin of a column, on an open row. -/
def toColumn (c : Nat) (r : PageRenderer) : PageRenderer :=
  { r with x := columnX r.toLayout r.toTableState c, rowOpen := true }

/-- The slice of a cell, if the cell reaches this line. -/
def emitSlice (row ln : Nat) (r : PageRenderer) (c : Nat) : PageRenderer :=
  if ((r.cell row c).slice (r.colW c) ln).len = 0 then r
  else (r.toColumn c).emitRun o ((r.cell row c).slice (r.colW c) ln) false

/-- The rules in the gutters. -/
def gutterOps (t : TableState) : Drawing := fun l y =>
  (List.range (t.tableCols - 1)).map fun c => .fillRect (columnX l t (c + 1) - 4) y 1 o.lineH true

/-- The slices of a line. -/
def emitSlices (row ln : Nat) (r : PageRenderer) : PageRenderer :=
  Runs.run (emitSlice o row ln) r (List.range r.tableCols)

/-- A line that is visible: one test for its slices and its gutters. -/
def drawLine (row ln : Nat) (r : PageRenderer) : PageRenderer :=
  if r.rowVisible then (r.emitSlices o row ln).issue (gutterOps o r.toTableState) else r

/-- The row below a line. -/
def nextTableLine (r : PageRenderer) : PageRenderer :=
  { (r.down .tableLine o.lineH).toLeftEdge with rowOpen := false }

/-- **One line of a table row.** -/
def tableLine (row : Nat) (r : PageRenderer) (ln : Nat) : PageRenderer :=
  (r.drawLine o row ln).nextTableLine o

/-- The rule under the header. -/
def headerOps : Drawing := fun l y =>
  [.drawHline (UInt16.ofNat l.leftEdge) (y - 1) (UInt16.ofNat (right - l.leftEdge)) true]

/-- The rule that closes a table. -/
def closingOps : Drawing := fun l y =>
  [.drawHline (UInt16.ofNat l.leftEdge) y (UInt16.ofNat (right - l.leftEdge)) true]

/-- The header is ruled. -/
def ruleHeader (row : Nat) (r : PageRenderer) : PageRenderer :=
  if row = 0 then r.paint headerOps else r

/-- One row of a table. -/
def tableRow (r : PageRenderer) (row : Nat) : PageRenderer :=
  (Runs.run (tableLine o row) r (List.range (r.rowLines row))).ruleHeader row

/-- The columns fitted to the panel. -/
def fitTable (r : PageRenderer) : PageRenderer :=
  { r with toTableState := r.fit (tableAvail r.toLayout) }

/-- The rows, and the rule that closes them. -/
def drawTable (r : PageRenderer) : PageRenderer :=
  ((Runs.run (tableRow o) r (List.range r.tRows)).paint closingOps).down .tableGap
    (UInt16.ofNat paraGap)

/-- **`table_flush`.** -/
def tableFlush (r : PageRenderer) : PageRenderer :=
  if r.tRows = 0 ∨ r.tableCols = 0 then r
  else if r.nothingToScale (tableAvail r.toLayout) then r.fitTable
  else r.fitTable.drawTable o

/-- `onTableBegin`. -/
def onTableBegin (s : Style) (r : PageRenderer) : PageRenderer :=
  { r.setDepth s with toTableState := r.toTableState.clear }

/-- `onTableRow`. -/
def onTableRow (row : Span) (s : Style) (r : PageRenderer) : PageRenderer :=
  { r.setDepth s with toTableState := r.toTableState.addRow row }

/-- `onTableEnd`. -/
def onTableEnd (s : Style) (r : PageRenderer) : PageRenderer := (r.setDepth s).tableFlush o

end PageRenderer

/-! ## The machine -/

/-- What the caller and the parser feed the renderer. -/
inductive Callback where
  /-- `blankLine`. -/
  | blankLine
  /-- `onText`. -/
  | text (t : Span) (s : Style)
  /-- `onLink`. -/
  | link (label target : Span) (s : Style)
  /-- `onDivider`. -/
  | divider (ch : UInt32) (s : Style)
  /-- `onField`. -/
  | field (f : Field) (s : Style)
  /-- `onAnchor`. -/
  | anchor
  /-- `onLineEnd`. -/
  | lineEnd (s : Style)
  /-- `onTableBegin`. -/
  | tableBegin (s : Style)
  /-- `onTableRow`. -/
  | tableRow (row : Span) (s : Style)
  /-- `onTableEnd`. -/
  | tableEnd (s : Style)
  /-- `onImage`. -/
  | image (alt url : Span) (s : Style)
  /-- `onPartial`. -/
  | part (url : Span) (s : Style)

/-- **One callback.** -/
def PageRenderer.step (o : Options) (r : PageRenderer) : Callback → PageRenderer
  | .blankLine => r.blankLine o
  | .text t s => r.onText o t s
  | .link label target s => r.onLink o label target s
  | .divider ch s => r.onDivider o ch s
  | .field f s => r.onField o f s
  | .anchor => r.onAnchor
  | .lineEnd s => r.onLineEnd o s
  | .tableBegin s => r.onTableBegin s
  | .tableRow row s => r.onTableRow row s
  | .tableEnd s => r.onTableEnd o s
  | .image alt url s => r.onImage o alt url s
  | .part url s => r.onPartial o url s

end Thicket.Page
