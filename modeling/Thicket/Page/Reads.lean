import Thicket.Base.Reads
import Thicket.Page.Report

/-! # What the renderer reads

The bytes that a callback reads of the runs it is given, and of the cells of a table: the indices
its loops test, the bytes that `seq_len` looks at, and the bytes of every sequence it copies. -/

namespace Thicket.Page

open Thicket.Lcd Thicket.Page.Span

/-! ## Runs -/

namespace Span

variable (t : Span)

/-- `seq_len(t[k])`, and `for (b = 0; b < L; ++b) g[b] = t[k + b]`. -/
def copied (k : Nat) : List Nat := k :: List.range' k (t.seqLenAt k)

/-- What `emit_run` reads to find a word and to measure it. -/
def wordTested (i : Nat) : List Nat :=
  tested (fun k => isSpace (t.byte k)) (fun _ => 1) t.len i
    ++ tested (fun k => !isSpace (t.byte k)) t.seqLenAt t.len (t.skipSpaces i)
    ++ t.steps (t.wordAt i).sp (t.wordAt i).w

/-- What it reads of a word: a word that is broken is copied with the spaces in front of it. -/
def wordReads (edge adv : Nat) (w : Word) : List Nat :=
  t.wordTested w.i ++
    if TooLong t edge adv w then (t.steps w.i w.w).flatMap t.copied
    else (t.steps w.sp w.w).flatMap t.copied

/-- What `emit_literal` reads from a pen: `seq_len` looks at the cell at the clip as well. -/
def literalReads : Nat → List Nat → List Nat
  | _, [] => []
  | x, k :: ks =>
      k :: if right < x + fontAdvance then [] else t.copied k ++ literalReads (x + fontAdvance) ks

/-- **What `emit_run` reads.** -/
def runReads (l : Layout) : List Nat :=
  if l.literal then t.literalReads (penOf l) (t.steps 0 t.len)
  else t.words.flatMap (t.wordReads l.leftEdge l.advance)

/-- The codepoints that the heading ladder decodes: up to the first that is not carried. -/
def decoded (o : Options) (want : Head) : List Nat → List Nat
  | [] => []
  | k :: ks =>
      k :: if PageRenderer.headHas o want (PageRenderer.headCodepoint t k) then decoded o want ks
        else []

/-- What decoding one of them reads. -/
def decodeReads (k : Nat) : List Nat :=
  k :: if t.seqLenAt k = 2 then [k + 1] else if t.seqLenAt k = 3 then [k + 1, k + 2] else []

end Span

/-! ## Rows of tables -/

namespace Strip

variable (row : Span) (tlen : Nat)

/-- What the label of a link reads. -/
def labelReads : List Nat → Strip → List Nat
  | [], _ => []
  | q :: qs, s =>
      if s.n < 255 then
        if tlen + s.n < tBytes then q :: labelReads qs (s.put tlen (row.byte q)) else []
      else []

/-- What stripping a cell reads. -/
def textReads (ce : Nat) : Nat → Nat → Strip → List Nat
  | 0, _, _ => []
  | fuel + 1, k, s =>
      if k < ce ∧ s.n < 255 then
        k :: if row.byte k = 0x60 ∧ k + 1 < ce then
          (k + 1) :: if row.byte (k + 1) = 0x5B then
            let e := linkEnd row ce k
            let label := List.range' (k + 2) (labelEnd row ce k - (k + 2))
            tested (fun q => row.byte q != 0x5D) (fun _ => 1) ce (k + 2)
              ++ labelReads row tlen label s
              ++ textReads ce fuel (if e < ce then e + 1 else ce) (Strip.label row tlen label s)
          else
            (if (row.byte (k + 1) = 0x46 ∨ row.byte (k + 1) = 0x42) ∧ k + 2 < ce then [k + 2]
              else []) ++ textReads ce fuel (min (k + skipOf row ce k) ce) s
        else if tlen + s.n < tBytes then textReads ce fuel (k + 1) (s.put tlen (row.byte k))
        else []
      else []

end Strip

namespace TableState

/-- What a cell reads: of the row, and of its own text for its width. -/
def cellReads (row : Span) (cs ce : Nat) (t : TableState) : List Read :=
  let s := Strip.text row t.tlen ce (ce - cs) cs ⟨t.tbuf, 0, t.tableOverflowed⟩
  readsOf row.len (Strip.textReads row t.tlen ce (ce - cs) cs ⟨t.tbuf, 0, t.tableOverflowed⟩)
    ++ readsOf s.n ((Span.mk (fun k => s.tbuf (t.tlen + k)) s.n).steps 0 s.n)

/-- What the cells of a row read. -/
def cellsReads (row : Span) (b r : Nat) : Nat → Nat → Nat → TableState → List Read
  | 0, _, _, _ => []
  | left + 1, i, col, t =>
      if i ≤ b then
        let cell := scan (fun k => row.byte k != 0x7C) (fun _ => 1) b i
        let cs := scan (fun k => isSpace (row.byte k)) (fun _ => 1) cell i
        let ce := backWhile (fun k => isSpace (row.byte k)) cs cell
        readsOf row.len (tested (fun k => row.byte k != 0x7C) (fun _ => 1) b i
            ++ tested (fun k => isSpace (row.byte k)) (fun _ => 1) cell i
            ++ backTested (fun k => isSpace (row.byte k)) cs cell)
          ++ t.cellReads row cs ce
          ++ cellsReads row b r left (cell + 1) (col + 1) (t.addCell row r col cs ce)
      else []

/-- **What `onTableRow` reads.** -/
def rowReads (row : Span) (t : TableState) : List Read :=
  let a := scan (fun k => isEdge (row.byte k)) (fun _ => 1) row.len 0
  let b := backWhile (fun k => isEdge (row.byte k)) a row.len
  readsOf row.len (tested (fun k => isEdge (row.byte k)) (fun _ => 1) row.len 0
      ++ backTested (fun k => isEdge (row.byte k)) a row.len
      ++ if a < b then tested (fun k => isSeparator (row.byte k)) (fun _ => 1) b a else [])
    ++ if (a < b ∧ (List.range' a (b - a)).all fun k => isSeparator (row.byte k)) ∨
        tRowsMax ≤ t.tRows then []
      else
        cellsReads row b t.tRows tColsMax a 0
          { t with cellOff := Function.update t.cellOff t.tRows fun _ => 0
                   cellLen := Function.update t.cellLen t.tRows fun _ => 0 }

end TableState

/-! ## The break rule -/

namespace Span

variable (p : Span)

/-- What the walk of a line reads. -/
def walkTested : Nat → Nat → List Nat
  | 0, _ => []
  | w + 1, e => if e < p.len then e :: walkTested w (e + p.seqLenAt e) else []

/-- What the break of a line reads. -/
def breakTested (w start : Nat) : List Nat :=
  let e := p.walk w start
  p.walkTested w start ++
    if e < p.len then
      e :: if p.byte e ≠ 0x20 then backTested (fun k => p.byte k != 0x20) start e else []
    else []

/-- What a line reads, with the spaces behind it. -/
def nextTested (w start : Nat) : List Nat :=
  p.breakTested w start
    ++ tested (fun k => p.byte k == 0x20) (fun _ => 1) p.len (p.breakLine w start)

/-- What counting the lines reads. -/
def linesTested (w : Nat) : Nat → Nat → List Nat
  | 0, _ => []
  | fuel + 1, start =>
      if start < p.len then p.nextTested w start ++ linesTested w fuel (p.nextLine w start) else []

/-- What the walk to a line reads. -/
def startTested (w : Nat) : Nat → Nat → List Nat
  | 0, _ => []
  | k + 1, start =>
      p.nextTested w start ++
        if p.len ≤ p.nextLine w start then [] else startTested w k (p.nextLine w start)

/-- What finding a slice reads. -/
def sliceTested (w ln : Nat) : List Nat :=
  p.startTested w ln 0 ++ p.breakTested w (p.lineStart w ln 0)

end Span

namespace PageRenderer

variable (o : Options)

/-! ## Tables -/

/-- What a slice reads: of its cell to find it, and of itself, which is of its cell again. -/
def sliceReads (row ln : Nat) (r : PageRenderer) (c : Nat) : List Read :=
  let p := r.cell row c
  let q := p.slice (r.colW c) ln
  let is := if q.len = 0 then [] else q.runReads (r.toColumn c).toLayout
  readsOf p.len (p.sliceTested (r.colW c) ln) ++ readsOf q.len is
    ++ readsOf p.len (is.map (p.lineStart (r.colW c) ln 0 + ·))

/-- What a line reads, if it is visible. -/
def lineReads (row : Nat) (r : PageRenderer) (ln : Nat) : List Read :=
  if r.rowVisible then
    Runs.outputs (emitSlice o row ln) (sliceReads row ln) r (List.range r.tableCols)
  else []

/-- What a row reads: its cells for the number of lines, and its lines. -/
def tableRowReads (r : PageRenderer) (row : Nat) : List Read :=
  ((List.range r.tableCols).flatMap fun c =>
      if r.cellLen row c = 0 ∨ r.colW c = 0 then []
      else readsOf (r.cell row c).len ((r.cell row c).linesTested (r.colW c) 32 0))
    ++ Runs.outputs (tableLine o row) (lineReads o row) r (List.range (r.rowLines row))

/-- **What `table_flush` reads.** -/
def flushReads (r : PageRenderer) : List Read :=
  if NothingDrawn r then []
  else Runs.outputs (tableRow o) (tableRowReads o) r.fitTable (List.range r.tRows)

/-! ## Callbacks -/

/-- The ladder looks at a line. -/
def Decodes (s : Style) (r : PageRenderer) : Prop :=
  o.head2x = true ∧ s.heading = true ∧ r.rowOpen = false

instance (s : Style) (r : PageRenderer) : Decidable (Decodes o s r) :=
  inferInstanceAs (Decidable (_ ∧ _))

/-- **What `onText` reads**: for its alignment, for the ladder, and of its run. -/
def textReads (t : Span) (s : Style) (r : PageRenderer) : List Read :=
  readsOf t.len ((if r.rowOpen = false ∧ s.align ≠ .left then t.steps 0 t.len else [])
    ++ (if Decodes o s r then
        (t.decoded o (wantedHead s.depth) (t.steps 0 t.len)).flatMap t.decodeReads else [])
    ++ t.runReads (r.openText o t s).toLayout)

/-- What the cells of a text field read: off the screen, and behind asterisks, only the lengths. -/
def fieldReads (f : Field) (s : Style) : Nat → Nat → PageRenderer → List Nat
  | 0, _, _ => []
  | n + 1, vk, r =>
      if right < r.x.toNat + fontAdvance then []
      else
        (if vk < f.value.len then
            if r.rowVisible ∧ f.masked = false then f.value.copied vk else [vk]
          else [])
        ++ fieldReads f s n (if vk < f.value.len then vk + f.value.seqLenAt vk else vk)
          ((r.paint (fieldCellOps f s vk)).penOver (UInt16.ofNat fontAdvance))

/-- What a run reads of itself. -/
def hereReads (t : Span) (r : PageRenderer) : List Read := readsOf t.len (t.runReads r.toLayout)

/-- **What a callback reads.** The target of a link is kept and not read. -/
def reads (r : PageRenderer) : Callback → List Read
  | .text t s => r.textReads o t s
  | .link label _ s => (r.setDepth s).freshRow.hereReads label
  | .field f s =>
      if f.kind = .text then
        readsOf f.value.len (fieldReads f s (if f.width = 0 then 1 else f.width.toNat) 0
          ((r.setDepth s).freshRow.paint
            (fieldBarOps o (if f.width = 0 then 1 else f.width.toNat) s)))
      else if f.label.len = 0 then []
      else (labelStart f s r).hereReads (.ofList [0x20])
        ++ ((labelStart f s r).emitHere o (.ofList [0x20])).hereReads f.label
  | .image alt url s => (r.setDepth s).hereReads imageTag
      ++ ((r.setDepth s).emitHere o imageTag).hereReads (if alt.len = 0 then url else alt)
  | .part url s => (r.setDepth s).hereReads partialTag
      ++ (((r.setDepth s).emitHere o partialTag).setDepth s).freshRow.hereReads url
  | .tableRow row _ => r.toTableState.rowReads row
  | .tableEnd s => (r.setDepth s).flushReads o
  | .blankLine | .divider _ _ | .anchor | .lineEnd _ | .tableBegin _ => []

end PageRenderer

end Thicket.Page
