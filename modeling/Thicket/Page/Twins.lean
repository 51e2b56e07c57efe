import Thicket.Page.CellLines
import Thicket.Page.Collect
import Thicket.Page.Pen

/-! # Tables that hold the same

What lies in the buffer behind the text that is stored, and in the rows that are not in use, does
not matter: two tables that agree on the rest are laid out in the same way, as long as no sequence
reaches past the stored text. -/

namespace Thicket.Page

open Thicket.Lcd Thicket.Page.Span

/-! ## Spans that agree -/

namespace Span

/-- Two spans with the same bytes within their length. -/
structure Agree (p q : Span) : Prop where
  /-- As long as one another. -/
  len_eq : q.len = p.len
  /-- The bytes. -/
  byte_eq : ∀ k < p.len, q.byte k = p.byte k

namespace Agree

variable {p q : Span} (h : Agree p q)

include h

/-- The sequences that begin within the length. -/
theorem steps_eq {a b : Nat} (hb : ∀ k ∈ p.steps a b, k < p.len) : q.steps a b = p.steps a b := by
  refine (positions_congr fun k hk => ?_).symm
  rw [seqLenAt, seqLenAt, h.byte_eq k (hb k hk)]

/-- All sequences. -/
theorem steps_len_eq : q.steps 0 q.len = p.steps 0 p.len := by
  rw [h.len_eq]
  exact h.steps_eq fun k hk => (mem_positions hk).2

/-- The same word at an index. -/
theorem wordAt_eq (i : Nat) : q.wordAt i = p.wordAt i := by
  have hsp : q.skipSpaces i = p.skipSpaces i := by
    rw [skipSpaces, skipSpaces, h.len_eq]
    refine scan_congr (fun k hk => ?_) (fun _ _ => rfl) i
    rw [h.byte_eq k hk]
  have hend (sp : Nat) : q.wordEnd sp = p.wordEnd sp := by
    rw [wordEnd, wordEnd, h.len_eq]
    refine scan_congr (fun k hk => ?_) (fun k hk => ?_) sp
    · rw [h.byte_eq k hk]
    · rw [seqLenAt, seqLenAt, h.byte_eq k hk]
  rw [wordAt, wordAt, hsp, hend]

/-- The same words. -/
theorem words_eq : q.words = p.words := by
  have hfrom (fuel i : Nat) : q.wordsUpTo fuel i = p.wordsUpTo fuel i := by
    induction fuel generalizing i with
    | zero => rfl
    | succ fuel ih => rw [wordsUpTo, wordsUpTo, h.wordAt_eq, h.len_eq, ih]
  rw [words, words, h.len_eq, hfrom]

/-- The same walk. -/
theorem walk_eq (w e : Nat) : q.walk w e = p.walk w e := by
  induction w generalizing e with
  | zero => rfl
  | succ w ih =>
    rw [walk, walk, h.len_eq]
    by_cases he : e < p.len
    · rw [if_pos he, if_pos he, seqLenAt, seqLenAt, h.byte_eq e he, ih]
    · rw [if_neg he, if_neg he]

/-- The same break. -/
theorem breakLine_eq (w start : Nat) : q.breakLine w start = p.breakLine w start := by
  rw [breakLine, breakLine, h.walk_eq, h.len_eq]
  by_cases he : p.walk w start < p.len
  · have hback : backWhile (fun k => q.byte k != 0x20) start (p.walk w start)
        = backWhile (fun k => p.byte k != 0x20) start (p.walk w start) := by
      refine backWhile_congr (fun k hk => ?_) start
      rw [h.byte_eq k (hk.trans he)]
    rw [h.byte_eq _ he, hback]
  · rw [if_neg fun hc => he hc.1, if_neg fun hc => he hc.1]

/-- The same next line. -/
theorem nextLine_eq (w start : Nat) : q.nextLine w start = p.nextLine w start := by
  rw [nextLine, nextLine, h.breakLine_eq, h.len_eq]
  refine scan_congr (fun k hk => ?_) (fun _ _ => rfl) _
  rw [h.byte_eq k hk]

/-- As many lines. -/
theorem linesFrom_eq (w fuel start : Nat) :
    q.linesFrom w fuel start = p.linesFrom w fuel start := by
  induction fuel generalizing start with
  | zero => rfl
  | succ fuel ih => rw [linesFrom, linesFrom, h.len_eq, h.nextLine_eq, ih]

/-- The lines begin where they did. -/
theorem lineStart_eq (w ln start : Nat) : q.lineStart w ln start = p.lineStart w ln start := by
  induction ln generalizing start with
  | zero => rfl
  | succ ln ih => rw [lineStart, lineStart, h.len_eq, h.nextLine_eq, ih]

end Agree

/-- Two spans that read the same: the bytes within their length, and their last sequence. -/
structure Reads (p q : Span) : Prop extends Agree p q where
  /-- The sequences. -/
  glyph_eq : ∀ k ∈ p.steps 0 p.len, q.glyph k = p.glyph k

end Span

namespace PageRenderer

variable {o : Options} {p q : Span} (invert : Bool)

/-- Preformatted cells. -/
theorem emitLiteralFrom_congr {ks : List Nat} (h : ∀ k ∈ ks, q.glyph k = p.glyph k)
    (r : PageRenderer) : emitLiteralFrom o q invert ks r = emitLiteralFrom o p invert ks r := by
  induction ks generalizing r with
  | nil => rfl
  | cons k ks ih =>
    rw [emitLiteralFrom, emitLiteralFrom, emitLiteralCell, emitLiteralCell,
      h k List.mem_cons_self, ih fun j hj => h j (List.mem_cons_of_mem k hj)]

/-- A word. -/
theorem emitWord_congr (h : p.Reads q) {w : Word} (hw : w ∈ p.words) (r : PageRenderer) :
    r.emitWord o q invert w = r.emitWord o p invert w := by
  obtain ⟨hat, -⟩ := p.eq_wordAt_of_mem_words hw
  -- the sequences of a word are sequences of the run
  have hmem : ∀ k ∈ p.steps w.i w.w, k ∈ p.steps 0 p.len := fun k hk => by
    rw [← p.flatMap_words]
    exact List.mem_flatMap.mpr ⟨w, hw, hk⟩
  have hword : ∀ k ∈ p.steps w.sp w.w, k ∈ p.steps 0 p.len := fun k hk => by
    refine hmem k ?_
    rw [hat] at hk ⊢
    exact p.steps_word w.i ▸ List.mem_append_right _ hk
  have hsteps : q.steps w.i w.w = p.steps w.i w.w :=
    h.steps_eq fun k hk => (mem_positions (hmem k hk)).2
  have hsteps' : q.steps w.sp w.w = p.steps w.sp w.w :=
    h.steps_eq fun k hk => (mem_positions (hword k hk)).2
  -- the same sequences: the same tests, and the same cells
  have hwidth : wordW q r.advance w = wordW p r.advance w := by
    rw [wordW, wordW, cells, cells, hsteps']
  have hbroken : Runs.run (emitBrokenCell o q invert) r (p.steps w.i w.w)
      = Runs.run (emitBrokenCell o p invert) r (p.steps w.i w.w) :=
    Runs.run_congr (fun s k hk => by
      rw [emitBrokenCell, emitBrokenCell, emitGlyph, emitGlyph, h.glyph_eq k (hmem k hk)]) r
  have hcells (s : PageRenderer) : Runs.run (emitCell o q invert) s (p.steps w.sp w.w)
      = Runs.run (emitCell o p invert) s (p.steps w.sp w.w) :=
    Runs.run_congr (fun s k hk => by
      rw [emitCell, emitCell, emitGlyph, emitGlyph, h.glyph_eq k (hword k hk)]) s
  have hfirst : r.breakOrLead o q invert w = r.breakOrLead o p invert w := by
    rw [breakOrLead, breakOrLead]
    refine if_congr ?_ rfl rfl
    rw [Wraps, Wraps, hwidth]
  rw [emitWord, emitWord, hsteps, hsteps', hbroken, hfirst, hcells]
  refine if_congr ?_ rfl rfl
  rw [TooLong, TooLong, hwidth]

/-- **Runs that read the same are drawn the same.** -/
theorem emitRun_congr (h : p.Reads q) (r : PageRenderer) :
    r.emitRun o q invert = r.emitRun o p invert := by
  have hliteral := emitLiteralFrom_congr (o := o) invert h.glyph_eq r.freshRow
  have hwords : Runs.run (emitWord o q invert) r.guardIndent p.words
      = Runs.run (emitWord o p invert) r.guardIndent p.words :=
    Runs.run_congr (fun s w hw => emitWord_congr invert h hw s) _
  rw [emitRun, emitRun, emitLiteral, emitLiteral, h.steps_len_eq, hliteral, h.words_eq, hwords]

end PageRenderer

/-! ## Tables that agree -/

/-- **Two tables with the same text** in their first `n` rows, which report the same where `f` says
so. -/
structure SameCells (f : Prop) (n : Nat) (t u : TableState) : Prop where
  /-- The columns are as wide. -/
  colW_eq : u.colW = t.colW
  /-- As much is stored. -/
  tlen_eq : u.tlen = t.tlen
  /-- The cells are in the same place. -/
  cells_eq : ∀ row < n, u.cellOff row = t.cellOff row ∧ u.cellLen row = t.cellLen row
  /-- The stored text is the same. -/
  bytes_eq : ∀ j < t.tlen, u.tbuf j = t.tbuf j
  /-- The cells lie in the stored text. -/
  stored : ∀ row < n, ∀ c, t.cellOff row c + t.cellLen row c ≤ t.tlen
  /-- The stored text lies in the buffer. -/
  tlen_le : t.tlen ≤ tBytes
  /-- What did not fit has been reported in both or in neither. -/
  overflowed_eq : f → u.tableOverflowed = t.tableOverflowed

/-- **Two tables that hold the same.** -/
structure TableTwin (f : Prop) (t u : TableState) : Prop extends SameCells f t.tRows t u where
  /-- As many rows. -/
  tRows_eq : u.tRows = t.tRows
  /-- As many columns. -/
  tableCols_eq : u.tableCols = t.tableCols

/-- A sequence of a slice lies in the stored text, its last byte included. -/
def SliceClosed (t : TableState) (row ln c : Nat) : Prop :=
  let start := (t.cell row c).lineStart (t.colW c) ln 0
  let p := (t.cell row c).slice (t.colW c) ln
  ∀ k ∈ p.steps 0 p.len, t.cellOff row c + start + k + p.seqLenAt k ≤ t.tlen

instance (t : TableState) (row ln c : Nat) : Decidable (SliceClosed t row ln c) :=
  inferInstanceAs (Decidable (∀ k ∈ _, _))

namespace TableState

variable {f : Prop} {n : Nat} {t u : TableState} (row : Span)

/-- A column that is as wide as its widest cell. -/
def widened (w : Nat → Nat) (col : Nat) (p : Span) : Nat → Nat :=
  if p.len ≠ 0 ∧ w col < p.cells 0 p.len % 256 then
    Function.update w col (p.cells 0 p.len % 256)
  else w

/-- Storing a cell widens its column. -/
theorem addCell_colW (r col cs ce : Nat) (t : TableState) :
    (t.addCell row r col cs ce).colW = widened t.colW col
      ⟨fun k => (t.addCell row r col cs ce).tbuf (t.tlen + k),
        (t.addCell row r col cs ce).cellLen r col⟩ := by
  have hlen : (t.addCell row r col cs ce).cellLen r col
      = (Strip.text row t.tlen ce (ce - cs) cs ⟨t.tbuf, 0, t.tableOverflowed⟩).n := by
    simp only [addCell, Function.update_self]
  rw [hlen]
  rfl

/-- Cells that agree widen a column in the same way. -/
theorem widened_congr {p q : Span} (h : p.Agree q) (w : Nat → Nat) (col : Nat) :
    widened w col q = widened w col p := by
  rw [widened, widened, cells, cells, h.steps_len_eq, h.len_eq]

/-- What a cell keeps of its text has room in the buffer. -/
theorem add_kept_le {tlen : Nat} (h : tlen ≤ tBytes) (len : Nat) :
    tlen + Strip.kept tlen 0 len ≤ tBytes := by
  simp only [Strip.kept]
  omega

/-- Where one cell has been stored behind the others, all lie in the stored text. -/
theorem stored_update {off len : Nat → Nat → Nat} {tlen k r col : Nat} {i c : Nat}
    (h : off i c + len i c ≤ tlen) :
    Function.update off r (Function.update (off r) col tlen) i c
      + Function.update len r (Function.update (len r) col k) i c ≤ tlen + k := by
  by_cases hir : i = r
  · subst hir
    simp only [Function.update_self]
    by_cases hc : c = col
    · subst hc
      simp only [Function.update_self]
      exact Nat.le_refl _
    · simp only [Function.update_of_ne hc]
      omega
  · simp only [Function.update_of_ne hir]
    omega

/-- A cell is stored in both. -/
theorem sameCells_addCell (h : SameCells f n t u) (r col cs ce : Nat) :
    SameCells f n (t.addCell row r col cs ce) (u.addCell row r col cs ce) := by
  obtain ⟨hover, hlen, hoff, htlen, hbytes⟩ := addCell_spec row r col cs ce t
  obtain ⟨hover', hlen', hoff', htlen', hbytes'⟩ := addCell_spec row r col cs ce u
  rw [h.tlen_eq] at hover' hlen' hoff' htlen' hbytes'
  have hkept := add_kept_le h.tlen_le (Strip.visibleText row cs ce).length
  rw [Nat.mod_eq_of_lt (Nat.lt_of_le_of_lt hkept (by decide))] at htlen htlen'
  generalize hk : Strip.kept t.tlen 0 (Strip.visibleText row cs ce).length = k at *
  -- what has been added is the same in both; in front of it is what was stored before
  have hsame : ∀ j < t.tlen + k, (u.addCell row r col cs ce).tbuf j
      = (t.addCell row r col cs ce).tbuf j := by
    intro j hj
    rw [hbytes, hbytes']
    by_cases hnew : t.tlen ≤ j ∧ j < t.tlen + k
    · rw [if_pos hnew, if_pos hnew]
    · rw [if_neg hnew, if_neg hnew]
      exact h.bytes_eq j (by omega)
  refine ⟨?_, htlen'.trans htlen.symm, fun i hi => ?_, fun j hj => ?_, fun i hi c => ?_, ?_,
    fun hf => ?_⟩
  · -- the width is counted on the bytes that have just been stored
    have hself (t : TableState) (hl : (t.addCell row r col cs ce).cellLen
        = Function.update t.cellLen r (Function.update (t.cellLen r) col k)) :
        (t.addCell row r col cs ce).cellLen r col = k := by
      rw [hl, Function.update_self, Function.update_self]
    have hagree : Agree ⟨fun j => (t.addCell row r col cs ce).tbuf (t.tlen + j), k⟩
        ⟨fun j => (u.addCell row r col cs ce).tbuf (t.tlen + j), k⟩ :=
      ⟨rfl, fun j hj => hsame (t.tlen + j) (Nat.add_lt_add_left hj _)⟩
    rw [addCell_colW, addCell_colW, hself t hlen, hself u hlen', h.colW_eq, h.tlen_eq]
    exact widened_congr hagree _ _
  · obtain ⟨hio, hil⟩ := h.cells_eq i hi
    rw [hoff, hoff', hlen, hlen']
    by_cases hir : i = r
    · subst hir
      simp only [Function.update_self, hio, hil, and_self]
    · simp only [Function.update_of_ne hir, hio, hil, and_self]
  · rw [htlen] at hj
    exact hsame j hj
  · rw [hoff, hlen, htlen]
    exact stored_update (h.stored i hi c)
  · rw [htlen]
    exact hkept
  · rw [hover, hover', h.overflowed_eq hf]

/-- Cells are stored in both. -/
theorem sameCells_storeCells (r : Nat) (cells : List (Nat × Nat)) (col : Nat)
    (h : SameCells f n t u) :
    SameCells f n (storeCells row r cells col t) (storeCells row r cells col u) := by
  induction cells generalizing col t u with
  | nil => exact h
  | cons cell cells ih =>
    exact ih (col + 1) (sameCells_addCell row h r col cell.1 cell.2)

/-- A row is opened in both. -/
theorem sameCells_openTableRow (h : TableTwin f t u) :
    SameCells f (t.tRows + 1) t.openTableRow u.openTableRow := by
  refine ⟨h.colW_eq, h.tlen_eq, fun i hi => ?_, h.bytes_eq, fun i hi c => ?_, h.tlen_le,
    h.overflowed_eq⟩
  · show Function.update u.cellOff u.tRows _ i = _ ∧ Function.update u.cellLen u.tRows _ i = _
    rw [h.tRows_eq]
    by_cases hlast : i = t.tRows
    · subst hlast
      simp [openTableRow]
    · have hold := h.cells_eq i (by omega)
      simp only [openTableRow, Function.update_of_ne hlast, hold, and_self]
  · by_cases hlast : i = t.tRows
    · subst hlast
      simp [openTableRow]
    · simp only [openTableRow, Function.update_of_ne hlast]
      exact h.stored i (by omega) c

/-- **A row is collected in both.** -/
theorem tableTwin_addRow (h : TableTwin f t u) : TableTwin f (t.addRow row) (u.addRow row) := by
  have hcells := sameCells_storeCells row t.tRows ((rowCells row).take tColsMax) 0
    (sameCells_openTableRow h)
  rw [addRow_eq, addRow_eq, h.tRows_eq, h.tableCols_eq]
  split_ifs
  · exact h
  · exact ⟨⟨h.colW_eq, h.tlen_eq, h.cells_eq, h.bytes_eq, h.stored, h.tlen_le, fun _ => rfl⟩, rfl,
      rfl⟩
  · exact ⟨⟨hcells.colW_eq, hcells.tlen_eq, hcells.cells_eq, hcells.bytes_eq, hcells.stored,
      hcells.tlen_le, hcells.overflowed_eq⟩, rfl, rfl⟩

/-- A table is cleared in both. -/
theorem tableTwin_clear (t u : TableState) : TableTwin f t.clear u.clear :=
  ⟨⟨rfl, rfl, fun _ hi => absurd hi (Nat.not_lt_zero _), fun _ hj => absurd hj (Nat.not_lt_zero _),
    fun _ hi => absurd hi (Nat.not_lt_zero _), Nat.zero_le _, fun _ => rfl⟩, rfl, rfl⟩

/-- The columns are capped alike. -/
theorem capped_eq (h : TableTwin f t u) (avail : Nat) : u.capped avail = t.capped avail := by
  funext c
  simp only [capped, h.colW_eq, h.tableCols_eq]

/-- There is as much to scale. -/
theorem nothingToScale_eq (h : TableTwin f t u) (avail : Nat) :
    u.nothingToScale avail = t.nothingToScale avail := by
  rw [nothingToScale, nothingToScale, capped_eq h, h.tableCols_eq]

/-- The columns are fitted in both. -/
theorem tableTwin_fit (h : TableTwin f t u) (avail : Nat) :
    TableTwin f (t.fit avail) (u.fit avail) := by
  have hcols : (u.fit avail).colW = (t.fit avail).colW := by
    simp only [fit, capped_eq h, h.tableCols_eq]
  exact ⟨⟨hcols, h.tlen_eq, h.cells_eq, h.bytes_eq, h.stored, h.tlen_le, h.overflowed_eq⟩,
    h.tRows_eq, h.tableCols_eq⟩

variable {row}

/-- The cells hold the same text. -/
theorem cell_agree (h : TableTwin f t u) {row : Nat} (hrow : row < t.tRows) (c : Nat) :
    (t.cell row c).Agree (u.cell row c) := by
  obtain ⟨hoff, hlen⟩ := h.cells_eq row hrow
  refine ⟨congrFun hlen c, fun k hk => ?_⟩
  have hstored := h.stored row hrow c
  have hk' : k < t.cellLen row c := hk
  show u.tbuf (u.cellOff row c + k) = t.tbuf (t.cellOff row c + k)
  rw [hoff]
  exact h.bytes_eq _ (by omega)

/-- The rows have as many lines. -/
theorem rowLines_eq (h : TableTwin f t u) {row : Nat} (hrow : row < t.tRows) :
    u.rowLines row = t.rowLines row := by
  obtain ⟨-, hlen⟩ := h.cells_eq row hrow
  rw [rowLines, rowLines, h.tableCols_eq, hlen, h.colW_eq]
  refine congrArg (fun f => List.foldl f 1 (List.range t.tableCols)) ?_
  funext lines c
  rw [(cell_agree h hrow c).linesFrom_eq]

/-- **The slices read the same**, where they lie in the stored text. -/
theorem slice_reads (h : TableTwin f t u) {row ln c : Nat} (hrow : row < t.tRows)
    (hclosed : SliceClosed t row ln c) :
    ((t.cell row c).slice (t.colW c) ln).Reads ((u.cell row c).slice (u.colW c) ln) := by
  obtain ⟨hoff, hlen⟩ := h.cells_eq row hrow
  have hagree := cell_agree h hrow c
  have hslice : (u.cell row c).slice (u.colW c) ln
      = (u.cell row c).sub ((t.cell row c).lineStart (t.colW c) ln 0)
        ((t.cell row c).slice (t.colW c) ln).len := by
    rw [slice, slice, h.colW_eq, hagree.lineStart_eq, hagree.breakLine_eq]
    rfl
  rw [hslice]
  rw [SliceClosed] at hclosed
  generalize hstart : (t.cell row c).lineStart (t.colW c) ln 0 = start at hclosed ⊢
  have hp : (t.cell row c).slice (t.colW c) ln
      = (t.cell row c).sub start ((t.cell row c).slice (t.colW c) ln).len := by
    rw [slice, hstart]
    rfl
  generalize (t.cell row c).slice (t.colW c) ln = p at hclosed hp ⊢
  -- a byte of the stored text
  have hbyte (k : Nat) (hk : t.cellOff row c + start + k < t.tlen) :
      ((u.cell row c).sub start p.len).byte k = p.byte k := by
    rw [hp]
    show u.tbuf (u.cellOff row c + (start + k)) = t.tbuf (t.cellOff row c + (start + k))
    rw [hoff]
    exact h.bytes_eq _ (by omega)
  refine ⟨⟨rfl, fun k hk => hbyte k ?_⟩, fun k hk => ?_⟩
  · -- the last sequence reaches the end of the slice
    obtain ⟨j, hj, hreach⟩ := exists_last_position p.seqLenAt_pos (Nat.lt_of_le_of_lt
      (Nat.zero_le k) hk)
    have hend := hclosed j hj
    omega
  · have hend := hclosed k hk
    have hpos := p.seqLenAt_pos k
    have hfirst := hbyte k (by omega)
    -- the lead byte says how long the sequence is, so its bytes are read alike
    rw [glyph, glyph, seqLenAt, hfirst]
    refine List.map_congr_left fun b hb => ?_
    have hb' : b < p.seqLenAt k := List.mem_range.mp hb
    exact hbyte (k + b) (by omega)

end TableState

end Thicket.Page
