import Thicket.Page.Dress
import Thicket.Page.LineStyle
import Thicket.Page.Twins

/-! # What a pass keeps of the one before

`begin` leaves the style of the last row and the table as they are. A pass does what it does on a
renderer that has just been constructed, as long as it reads nothing that was left before it has
written it. -/

namespace Thicket.Page

open Thicket.Lcd Thicket.Page.Span

/-- The slices of a table lie in the stored text. -/
def TableClosed (r : PageRenderer) : Prop :=
  ∀ row < r.tRows, ∀ ln < r.rowLines row, ∀ c < r.tableCols, SliceClosed r.toTableState row ln c

instance (r : PageRenderer) : Decidable (TableClosed r) :=
  inferInstanceAs (Decidable (∀ row < r.tRows, ∀ ln < r.rowLines row, ∀ c < r.tableCols, _))

/-! ## Tables in lockstep -/

/-- **Two renderers in lockstep, over tables that hold the same.** -/
structure TableLock (f k : Prop) (b c : List Entry) (r s : PageRenderer) : Prop
    extends Lockstep k b c r s where
  /-- The tables. -/
  twin : TableTwin f r.toTableState s.toTableState

namespace TableLock

variable {f k : Prop} {b c : List Entry} {r s r' s' : PageRenderer} {o : Options}

/-- What moves only the pen keeps the tables. -/
theorem of_onlyPen (h : TableLock f k b c r s) (hlock : Lockstep k b c r' s') (hr : OnlyPen r r')
    (hs : OnlyPen s s') : TableLock f k b c r' s' := by
  refine ⟨hlock, ?_⟩
  rw [hr.table_eq, hs.table_eq]
  exact h.twin

/-- The columns begin at the same place. -/
theorem columnX_eq (h : TableLock f k b c r s) (col : Nat) :
    PageRenderer.columnX s.toLayout s.toTableState col
      = PageRenderer.columnX r.toLayout r.toTableState col := by
  rw [PageRenderer.columnX, PageRenderer.columnX, h.sameRow.leftEdge_eq, h.twin.colW_eq]

/-- A slice. -/
theorem emitSlice (h : TableLock f k b c r s) {row ln col : Nat} (hrow : row < r.tRows)
    (hclosed : SliceClosed r.toTableState row ln col) :
    TableLock f k b c (r.emitSlice o row ln col) (s.emitSlice o row ln col) := by
  refine h.of_onlyPen ?_ (PageRenderer.onlyPen_emitSlice row ln r col)
    (PageRenderer.onlyPen_emitSlice row ln s col)
  have hreads := TableState.slice_reads h.twin hrow hclosed
  rw [PageRenderer.emitSlice, PageRenderer.emitSlice, hreads.len_eq]
  split
  · exact h.toLockstep
  · rw [PageRenderer.emitRun_congr false hreads, PageRenderer.toColumn, PageRenderer.toColumn,
      h.columnX_eq]
    have hcolumn := h.toLockstep.edit (fun l => { l with
      x := PageRenderer.columnX r.toLayout r.toTableState col, rowOpen := true })
      ⟨fun _ _ _ => rfl, fun _ _ => rfl, fun _ _ => rfl⟩
    exact Lockstep.paired.emitRun _ _ hcolumn

/-- The slices of a line. -/
theorem emitSlices (h : TableLock f k b c r s) {row ln : Nat} (hrow : row < r.tRows)
    (hclosed : ∀ col < r.tableCols, SliceClosed r.toTableState row ln col) :
    TableLock f k b c (r.emitSlices o row ln) (s.emitSlices o row ln) := by
  have hcols : ∀ col ∈ List.range r.tableCols, SliceClosed r.toTableState row ln col :=
    fun col hcol => hclosed col (List.mem_range.mp hcol)
  rw [PageRenderer.emitSlices, PageRenderer.emitSlices, h.twin.tableCols_eq]
  generalize List.range r.tableCols = cols at hcols
  -- a slice moves only the pen: the rest of the line finds the same table
  clear hclosed
  induction cols generalizing r s with
  | nil => exact h
  | cons col cols ih =>
    have htable := (PageRenderer.onlyPen_emitSlice (o := o) row ln r col).table_eq
    refine ih (h.emitSlice hrow (hcols col List.mem_cons_self)) ?_ fun d hd => ?_
    · rw [htable]
      exact hrow
    · rw [htable]
      exact hcols d (List.mem_cons_of_mem col hd)

/-- A line of a table. -/
theorem tableLine (h : TableLock f k b c r s) {row ln : Nat} (hrow : row < r.tRows)
    (hclosed : ∀ col < r.tableCols, SliceClosed r.toTableState row ln col) :
    TableLock f k b c (r.tableLine o row ln) (s.tableLine o row ln) := by
  refine h.of_onlyPen ?_ (PageRenderer.onlyPen_tableLine row r ln)
    (PageRenderer.onlyPen_tableLine row s ln)
  have hline : Lockstep k b c (r.drawLine o row ln) (s.drawLine o row ln) := by
    rw [PageRenderer.drawLine, PageRenderer.drawLine, h.rowVisible_eq]
    split
    · have hgutters : PageRenderer.gutterOps o s.toTableState
          = PageRenderer.gutterOps o r.toTableState := by
        funext l y
        simp only [PageRenderer.gutterOps, PageRenderer.columnX, h.twin.tableCols_eq,
          h.twin.colW_eq]
      rw [hgutters]
      exact (h.emitSlices hrow hclosed).toLockstep.issue fun _ _ _ _ => rfl
    · exact h.toLockstep
  exact (hline.down .tableLine o.lineH).edit (fun l => { l with
    x := UInt16.ofNat l.leftEdge, rowOpen := false })
      ⟨fun _ _ _ => rfl, fun _ _ => rfl, fun _ _ => rfl⟩

/-- A row of a table. -/
theorem tableRow (h : TableLock f k b c r s) {row : Nat} (hrow : row < r.tRows)
    (hclosed : ∀ ln < r.rowLines row, ∀ col < r.tableCols,
      SliceClosed r.toTableState row ln col) :
    TableLock f k b c (r.tableRow o row) (s.tableRow o row) := by
  refine h.of_onlyPen ?_ (PageRenderer.onlyPen_tableRow r row)
    (PageRenderer.onlyPen_tableRow s row)
  have hlines : ∀ ln ∈ List.range (r.rowLines row), ∀ col < r.tableCols,
      SliceClosed r.toTableState row ln col := fun ln hln => hclosed ln (List.mem_range.mp hln)
  have hrun : Lockstep k b c
      (Runs.run (PageRenderer.tableLine o row) r (List.range (r.rowLines row)))
      (Runs.run (PageRenderer.tableLine o row) s (List.range (r.rowLines row))) := by
    generalize List.range (r.rowLines row) = lns at hlines
    clear hclosed
    induction lns generalizing r s with
    | nil => exact h.toLockstep
    | cons ln lns ih =>
      -- drawing a line leaves the table as it was
      have htable := (PageRenderer.onlyPen_tableLine (o := o) row r ln).table_eq
      refine ih (h.tableLine hrow (hlines ln List.mem_cons_self)) ?_ fun m hm => ?_
      · rw [htable]
        exact hrow
      · rw [htable]
        exact hlines m (List.mem_cons_of_mem ln hm)
  rw [PageRenderer.tableRow, PageRenderer.tableRow, TableState.rowLines_eq h.twin hrow,
    PageRenderer.ruleHeader, PageRenderer.ruleHeader]
  split
  · exact hrun.paint fun _ _ _ _ => rfl
  · exact hrun

/-- **A table.** -/
theorem drawTable (h : TableLock f k b c r s) (hclosed : TableClosed r) :
    Lockstep k b c (r.drawTable o) (s.drawTable o) := by
  have hrows : ∀ row ∈ List.range r.tRows, row < r.tRows ∧ ∀ ln < r.rowLines row,
      ∀ col < r.tableCols, SliceClosed r.toTableState row ln col :=
    fun row hrow => ⟨List.mem_range.mp hrow, hclosed row (List.mem_range.mp hrow)⟩
  have hrun : Lockstep k b c (Runs.run (PageRenderer.tableRow o) r (List.range r.tRows))
      (Runs.run (PageRenderer.tableRow o) s (List.range r.tRows)) := by
    generalize List.range r.tRows = rows at hrows
    clear hclosed
    induction rows generalizing r s with
    | nil => exact h.toLockstep
    | cons row rows ih =>
      -- the table is not touched while it is drawn, so the rows still to come stay closed
      have htable := (PageRenderer.onlyPen_tableRow (o := o) r row).table_eq
      obtain ⟨hrow, hclosed⟩ := hrows row List.mem_cons_self
      refine ih (h.tableRow hrow hclosed) fun m hm => ?_
      rw [htable]
      exact hrows m (List.mem_cons_of_mem row hm)
  rw [PageRenderer.drawTable, PageRenderer.drawTable, h.twin.tRows_eq]
  exact (hrun.paint fun _ _ _ _ => rfl).down _ _

end TableLock

/-! ## What is stale -/

/-- **What a renderer may still hold of an earlier pass**, and nothing has written since. -/
structure Stale where
  /-- The face of the row and its height: `_head`, `_row_h`. -/
  face : Prop
  /-- Its weight: `_bold`. -/
  bold : Prop
  /-- The rule under it: `_head_rule`. -/
  rule : Prop
  /-- The style of its text: `_literal`, `_underline`, `_has_bg` and `_bg_luma`. -/
  style : Prop
  /-- The rows of a table: `_t_rows`, `_tlen` and `_col_w`. -/
  table : Prop
  /-- Whether a table has lost something: `_table_overflowed`. -/
  flag : Prop

namespace Stale

/-- What is stale after a callback. -/
def after (j : Stale) : Callback → Stale
  | .text .. => { j with face := False, bold := False, rule := False, style := False }
  | .lineEnd _ => { j with face := False, bold := False, rule := False }
  | .tableBegin _ => { j with table := False, flag := False }
  | _ => j

/-- Nothing that `emit_run` reads is stale. -/
def Clean (j : Stale) : Prop := ¬ j.face ∧ ¬ j.bold ∧ ¬ j.style

/-- **A callback reads nothing that is stale.** -/
def Unread (o : Options) (j : Stale) (r : PageRenderer) : Callback → Prop
  | .blankLine | .divider .. | .anchor | .tableBegin _ => True
  -- a text writes the style before it reads it, and the face only if it climbs
  | .text t s => j.face → PageRenderer.Climbs o t s r.toLayout ∧ s.align = .left
  | .link .. | .image .. | .part .. => j.Clean
  | .field f s =>
    -- the bar of a text field is as high as the row
      if f.kind = .text then s.hasBg = true → ¬ j.face else f.label.len = 0 ∨ j.Clean
  | .lineEnd _ => ¬ j.face ∧ (j.rule → r.rowOpen = false)
  | .tableRow .. => ¬ j.table
  | .tableEnd s =>
    -- a last sequence that is cut short reads the buffer behind the stored text
      (r.tRows = 0 ∨ r.tableCols = 0) ∨ j.Clean ∧ TableClosed (r.setDepth s).fitTable

end Stale

/-- **Two renderers abreast**: they agree on everything that is not stale. -/
structure Abreast (j : Stale) (r s : PageRenderer) : Prop where
  /-- All is the same but for the dress of the row, the rule and the table. -/
  lock : Lockstep True [] [] r (s.dress r.toLayout)
  /-- The face. -/
  face : ¬ j.face → SameFace r.toLayout s.toLayout
  /-- The weight. -/
  bold : ¬ j.bold → s.bold = r.bold
  /-- The rule. -/
  rule : ¬ j.rule → s.headRule = r.headRule
  /-- The style. -/
  style : ¬ j.style → SameStyle r.toLayout s.toLayout
  /-- The columns that have been seen. -/
  cols : s.tableCols = r.tableCols
  /-- The table. -/
  table : ¬ j.table → TableTwin (¬ j.flag) r.toTableState s.toTableState
  /-- No row has been added to a stale table. -/
  noCols : j.table → r.tableCols = 0
  /-- The report. -/
  flag : ¬ j.flag → s.tableOverflowed = r.tableOverflowed

namespace Abreast

variable {j : Stale} {r s r' s' : PageRenderer}

/-- Where nothing is stale that a run reads, all is the same but for the rule and the table. -/
theorem lock_of_clean (h : Abreast j r s) (hclean : j.Clean) : Lockstep True [] [] r s := by
  have hself : s.dress r.toLayout = s := by
    rw [PageRenderer.dress,
      Layout.dress_eq (h.face hclean.1) (h.bold hclean.2.1) (h.style hclean.2.2)]
  rw [← hself]
  exact h.lock

/-- The dress stays, and the table is another. -/
theorem retable (h : Abreast j r s) {T F : Prop}
    (hr : r'.toLayout = { r.toLayout with
      y := r'.y, x := r'.x, rowOpen := r'.rowOpen, depth := r'.depth
      blankPending := r'.blankPending })
    (hs : s'.toLayout = { s.toLayout with
      y := s'.y, x := s'.x, rowOpen := s'.rowOpen, depth := s'.depth
      blankPending := s'.blankPending })
    (hlock : Lockstep True [] [] r' (s'.dress r.toLayout)) (hcols : s'.tableCols = r'.tableCols)
    (htable : ¬ T → TableTwin (¬ F) r'.toTableState s'.toTableState)
    (hnoCols : T → r'.tableCols = 0) (hflag : ¬ F → s'.tableOverflowed = r'.tableOverflowed) :
    Abreast { j with table := T, flag := F } r' s' := by
  refine ⟨?_, fun hj => ?_, fun hj => ?_, fun hj => ?_, fun hj => ?_, hcols, htable, hnoCols,
    hflag⟩
  · have hdress : Layout.dress r'.toLayout s'.toLayout = Layout.dress r.toLayout s'.toLayout := by
      rw [hr]
      rfl
    rw [PageRenderer.dress, hdress]
    exact hlock
  · rw [hr, hs]
    exact ⟨(h.face hj).head_eq, (h.face hj).ownRowH_eq⟩
  · rw [hr, hs]
    exact h.bold hj
  · rw [hr, hs]
    exact h.rule hj
  · obtain ⟨hlit, hund, hbg, hluma⟩ := h.style hj
    rw [hr, hs]
    exact ⟨hlit, hund, hbg, hluma⟩

end Abreast

namespace PageRenderer

variable {o : Options} {j : Stale} {r s : PageRenderer} {cb : Callback}

/-- Callbacks that keep the dress, in lockstep. -/
theorem lockstep_keeps (h : Lockstep True [] [] r s) (hcb : cb.keepsDress = true) :
    Lockstep True [] [] (r.step o cb) (s.step o cb) := by
  cases cb with
  | blankLine => exact h.blankLine (h.reports_eq trivial).2.2
  | anchor => exact h
  | link label target st => exact h.onLink label target st
  | divider ch st => exact Lockstep.paired.onDivider h ch st
  | field f st => exact Lockstep.paired.onField h f st
  | image alt url st => exact Lockstep.paired.onImage h alt url st
  | part url st => exact h.onPartial url st
  | _ => cases hcb

/-- **A callback that keeps the dress**, and does not read it where it is stale. -/
theorem abreast_keeps (h : Abreast j r s) (hcb : cb.keepsDress = true)
    (hread : cb.Bare ∧ (cb.ReadsHeight → ¬ j.face) ∨ j.Clean) :
    Abreast j (r.step o cb) (s.step o cb) := by
  have hr := keepsDress_step (o := o) hcb r
  have hs := keepsDress_step (o := o) hcb s
  have hlock : Lockstep True [] [] (r.step o cb) ((s.step o cb).dress r.toLayout) := by
    -- either the dress is not read, or nothing that is read of it is stale
    rcases hread with ⟨hbare, hheight⟩ | hclean
    · have hstep := lockstep_keeps (o := o) h.lock hcb
      rw [step_dress hbare fun hreads => (h.face (hheight hreads)).ownRowH_eq.symm] at hstep
      exact hstep
    · have hstep := lockstep_dress (lockstep_keeps (o := o) (h.lock_of_clean hclean) hcb)
      rw [dress, hr.dress_eq] at hstep
      exact hstep
  refine h.retable (T := j.table) (F := j.flag) hr.layout_eq hs.layout_eq hlock ?_ ?_ ?_ ?_
  · rw [hr.table_eq, hs.table_eq]
    exact h.cols
  · rw [hr.table_eq, hs.table_eq]
    exact h.table
  · rw [hr.table_eq]
    exact h.noCols
  · rw [hr.table_eq, hs.table_eq]
    exact h.flag

/-- A heading that has not climbed is ruled. -/
theorem headRule_onText (t : Span) (st : Style) (r : PageRenderer) :
    (r.onText o t st).headRule
      = (o.stepped && st.heading && 2 ≤ st.depth && (r.onText o t st).head == Head.none) := by
  have hpen : OnlyPen (r.openText o t st) (r.onText o t st) := onlyPen_emitRun t _ _
  rw [hpen.layout_eq]
  rfl

/-- **A text** leaves nothing stale but the table. -/
theorem abreast_text (h : Abreast j r s) {t : Span} {st : Style}
    (hface : j.face → Climbs o t st r.toLayout ∧ st.align = .left) :
    Abreast (j.after (.text t st)) (r.onText o t st) (s.onText o t st) := by
  have hlock := Lockstep.paired.onText (o := o) t h.lock st
  have hopen : s.rowOpen = r.rowOpen := h.lock.sameRow.rowOpen_eq
  -- the text overwrites the dress, so that it can be taken off again
  have hsame : (s.dress r.toLayout).onText o t st = s.onText o t st := by
    refine step_text_dress ?_
    by_cases hj : j.face
    · obtain ⟨hclimb, hleft⟩ := hface hj
      refine .inr ⟨?_, hleft⟩
      rw [Climbs, hopen]
      exact hclimb
    · exact .inl ⟨(h.face hj).head_eq.symm, (h.face hj).ownRowH_eq.symm⟩
  rw [hsame] at hlock
  have hr : (r.onText o t st).toTableState = r.toTableState :=
    (onlyPen_emitRun t _ (r.openText o t st)).table_eq
  have hs : (s.onText o t st).toTableState = s.toTableState :=
    (onlyPen_emitRun t _ (s.openText o t st)).table_eq
  have hhead : (s.onText o t st).head = (r.onText o t st).head := by rw [hlock.layout_eq]
  refine ⟨lockstep_dress hlock, fun _ => ?_, fun _ => ?_, fun _ => ?_, fun _ => ?_, ?_, ?_, ?_, ?_⟩
  · rw [hlock.layout_eq]
    exact ⟨rfl, rfl⟩
  · rw [hlock.layout_eq]
  · rw [headRule_onText, headRule_onText, hhead]
  · rw [hlock.layout_eq]
    exact ⟨rfl, rfl, rfl, rfl⟩
  · rw [hr, hs]
    exact h.cols
  · rw [hr, hs]
    exact h.table
  · rw [hr]
    exact h.noCols
  · rw [hr, hs]
    exact h.flag

/-- **The end of a line** leaves a body row. -/
theorem abreast_lineEnd (h : Abreast j r s) (hface : ¬ j.face)
    (hrule : j.rule → r.rowOpen = false) (st : Style) :
    Abreast (j.after (.lineEnd st)) (r.onLineEnd o st) (s.onLineEnd o st) := by
  obtain ⟨hrl, hrt⟩ := onLineEnd_keeps (o := o) st r
  obtain ⟨hsl, hst⟩ := onLineEnd_keeps (o := o) st s
  have hr := atLineEnd_onLineEnd (o := o) st r
  have hs := atLineEnd_onLineEnd (o := o) st s
  -- a stale rule is not drawn under a row that is closed
  have hruled : r.rowOpen = true → s.headRule = r.headRule := by
    intro hopen
    refine h.rule fun hj => ?_
    rw [hrule hj] at hopen
    cases hopen
  have hlock := Lockstep.paired.onLineEnd (o := o) h.lock hruled st
  rw [onLineEnd_dress ⟨(h.face hface).head_eq.symm, (h.face hface).ownRowH_eq.symm⟩] at hlock
  refine ⟨?_, fun _ => ?_, fun _ => ?_, fun _ => ?_, fun hj => ?_, ?_, ?_, ?_, ?_⟩
  · have hdress : Layout.dress (r.onLineEnd o st).toLayout (s.onLineEnd o st).toLayout
        = Layout.dress { r.toLayout with head := .none, ownRowH := 0, bold := false }
            (s.onLineEnd o st).toLayout := by
      rw [hrl]
      rfl
    rw [dress, hdress]
    exact hlock
  · exact ⟨hs.head_eq.trans hr.head_eq.symm, hs.ownRowH_eq.trans hr.ownRowH_eq.symm⟩
  · exact hs.bold_eq.trans hr.bold_eq.symm
  · exact hs.headRule_eq.trans hr.headRule_eq.symm
  · obtain ⟨hlit, hund, hbg, hluma⟩ := h.style hj
    rw [hrl, hsl]
    exact ⟨hlit, hund, hbg, hluma⟩
  · rw [hrt, hst]
    exact h.cols
  · rw [hrt, hst]
    exact h.table
  · rw [hrt]
    exact h.noCols
  · rw [hrt, hst]
    exact h.flag

/-- **A table is begun.** -/
theorem abreast_tableBegin (h : Abreast j r s) (st : Style) :
    Abreast (j.after (.tableBegin st)) (r.onTableBegin st) (s.onTableBegin st) := by
  have hlock := (Lockstep.paired.setDepth h.lock st).editTable r.toTableState.clear
    s.toTableState.clear
  exact h.retable (T := False) (F := False) rfl rfl hlock rfl
    (fun _ => TableState.tableTwin_clear _ _) False.elim fun _ => rfl

/-- **A row is collected**, in a table that has been begun. -/
theorem abreast_tableRow (h : Abreast j r s) (hj : ¬ j.table) (row : Span) (st : Style) :
    Abreast (j.after (.tableRow row st)) (r.onTableRow row st) (s.onTableRow row st) := by
  have htwin := TableState.tableTwin_addRow row (h.table hj)
  have hlock := (Lockstep.paired.setDepth h.lock st).editTable (r.toTableState.addRow row)
    (s.toTableState.addRow row)
  exact h.retable (T := j.table) (F := j.flag) rfl rfl hlock htwin.tableCols_eq (fun _ => htwin)
    (fun hT => absurd hT hj) htwin.overflowed_eq

/-- There is a table in both or in neither. -/
theorem noTable_iff (h : Abreast j r s) :
    (s.tRows = 0 ∨ s.tableCols = 0) ↔ (r.tRows = 0 ∨ r.tableCols = 0) := by
  rw [h.cols]
  by_cases hj : j.table
  · exact iff_of_true (.inr (h.noCols hj)) (.inr (h.noCols hj))
  · rw [(h.table hj).tRows_eq]

/-- Where nothing stale is read, the fitted tables are in lockstep. -/
theorem tableLock_fitTable (h : Abreast j r s) (hclean : j.Clean) (hj : ¬ j.table) (st : Style) :
    TableLock (¬ j.flag) True [] [] (r.setDepth st).fitTable (s.setDepth st).fitTable ∧
      (s.setDepth st).nothingToScale (tableAvail (s.setDepth st).toLayout)
        = (r.setDepth st).nothingToScale (tableAvail (r.setDepth st).toLayout) := by
  have hlock := Lockstep.paired.setDepth (h.lock_of_clean hclean) st
  have havail : tableAvail (s.setDepth st).toLayout = tableAvail (r.setDepth st).toLayout := by
    rw [tableAvail, tableAvail, hlock.sameRow.leftEdge_eq]
  have hfit := TableState.tableTwin_fit (h.table hj) (tableAvail (r.setDepth st).toLayout)
  refine ⟨⟨hlock.editTable _ _, ?_⟩, ?_⟩
  · rw [fitTable, fitTable, havail]
    exact hfit
  · rw [havail]
    exact TableState.nothingToScale_eq (h.table hj) _

/-- What is drawn of the fitted tables keeps the renderers abreast. -/
theorem abreast_of_fitTable (h : Abreast j r s) (hj : ¬ j.table) {st : Style} {r' s' : PageRenderer}
    (htwin : TableTwin (¬ j.flag) (r.setDepth st).fitTable.toTableState
      (s.setDepth st).fitTable.toTableState)
    (hr : KeepsDress (r.setDepth st).fitTable r') (hs : KeepsDress (s.setDepth st).fitTable s')
    (hlock : Lockstep True [] [] r' s') : Abreast j r' s' := by
  have hdress := lockstep_dress hlock
  rw [dress, hr.dress_eq] at hdress
  refine h.retable (T := j.table) (F := j.flag) hr.layout_eq hs.layout_eq hdress ?_ (fun _ => ?_)
    (fun hT => absurd hT hj) ?_
  · rw [hr.table_eq, hs.table_eq]
    exact htwin.tableCols_eq
  · rw [hr.table_eq, hs.table_eq]
    exact htwin
  · rw [hr.table_eq, hs.table_eq]
    exact htwin.overflowed_eq

/-- **A table is drawn**, in a style that is not stale, from slices that lie in its text. -/
theorem abreast_tableEnd (h : Abreast j r s) (st : Style)
    (hread : (r.tRows = 0 ∨ r.tableCols = 0) ∨ j.Clean ∧ TableClosed (r.setDepth st).fitTable) :
    Abreast (j.after (.tableEnd st)) (r.onTableEnd o st) (s.onTableEnd o st) := by
  rw [onTableEnd, onTableEnd, tableFlush, tableFlush]
  show Abreast j (if r.tRows = 0 ∨ r.tableCols = 0 then _ else _)
    (if s.tRows = 0 ∨ s.tableCols = 0 then _ else _)
  by_cases hempty : r.tRows = 0 ∨ r.tableCols = 0
  · rw [if_pos hempty, if_pos ((noTable_iff h).mpr hempty)]
    exact h.retable (T := j.table) (F := j.flag) rfl rfl (Lockstep.paired.setDepth h.lock st)
      h.cols h.table h.noCols h.flag
  · obtain ⟨hclean, hclosed⟩ := hread.resolve_left hempty
    -- a stale table has no columns
    have hj : ¬ j.table := fun hj => hempty (.inr (h.noCols hj))
    obtain ⟨hfit, hscale⟩ := tableLock_fitTable h hclean hj st
    rw [if_neg hempty, if_neg (mt (noTable_iff h).mp hempty), hscale]
    split
    · exact abreast_of_fitTable h hj hfit.twin ⟨rfl, rfl⟩ ⟨rfl, rfl⟩
        hfit.toLockstep
    · exact abreast_of_fitTable h hj hfit.twin (frame_keepsDress.drawTable _)
        (frame_keepsDress.drawTable _) (hfit.drawTable hclosed)

/-- **One step.** A callback that reads nothing stale keeps two renderers abreast. -/
theorem abreast_step (h : Abreast j r s) (hun : j.Unread o r cb) :
    Abreast (j.after cb) (r.step o cb) (s.step o cb) := by
  cases cb with
  | text t st => exact abreast_text h hun
  | lineEnd st => exact abreast_lineEnd h hun.1 hun.2 st
  | tableBegin st => exact abreast_tableBegin h st
  | tableRow row st => exact abreast_tableRow h hun row st
  | tableEnd st => exact abreast_tableEnd h st hun
  | blankLine => exact abreast_keeps h rfl (.inl ⟨trivial, False.elim⟩)
  | divider => exact abreast_keeps h rfl (.inl ⟨trivial, False.elim⟩)
  | anchor => exact abreast_keeps h rfl (.inl ⟨trivial, False.elim⟩)
  | link => exact abreast_keeps h rfl (.inr hun)
  | image => exact abreast_keeps h rfl (.inr hun)
  | part => exact abreast_keeps h rfl (.inr hun)
  | field f st =>
    refine abreast_keeps h rfl ?_
    rw [Stale.Unread] at hun
    split at hun
    next hkind => exact .inl ⟨.inl hkind, fun hreads => hun hreads.2⟩
    next hkind =>
      exact hun.imp_left fun hlabel => ⟨.inr hlabel, fun hreads => absurd hreads.1 hkind⟩

/-! ## A pass -/

/-- A renderer, and what is stale of it. -/
abbrev Tracked : Type := Stale × PageRenderer

/-- One callback on a renderer whose stale parts are tracked. -/
def track (o : Options) (p : Tracked) (cb : Callback) : Tracked :=
  (p.1.after cb, p.2.step o cb)

/-- Tracking what is stale does not change what is drawn. -/
theorem track_snd (p : Tracked) (cs : List Callback) :
    (Runs.run (track o) p cs).2 = Runs.run (step o) p.2 cs := by
  induction cs generalizing p with
  | nil => rfl
  | cons cb cs ih => exact ih (track o p cb)

/-- The report is stale until a table begins. -/
theorem flag_track {p : Tracked} {cs : List Callback} (h : (Runs.run (track o) p cs).1.flag) :
    p.1.flag ∧ ∀ st, Callback.tableBegin st ∉ cs := by
  induction cs generalizing p with
  | nil => exact ⟨h, fun _ hst => nomatch hst⟩
  | cons cb cs ih =>
    obtain ⟨hflag, hnone⟩ := ih h
    -- only the begin of a table clears the report
    have hfirst : p.1.flag ∧ ∀ st, cb ≠ .tableBegin st := by
      cases cb with
      | tableBegin st => exact hflag.elim
      | _ => exact ⟨hflag, fun _ heq => nomatch heq⟩
    refine ⟨hfirst.1, fun st hst => ?_⟩
    rcases List.mem_cons.mp hst with heq | hmem
    · exact hfirst.2 st heq.symm
    · exact hnone st hmem

/-- **What `begin` leaves** of the passes before: everything that it does not assign, and that is
not what a constructor leaves there. -/
def stale (r : PageRenderer) : Stale where
  face := ¬ (r.head = .none ∧ r.ownRowH = 0)
  bold := r.bold = true
  rule := r.headRule = true
  style := ¬ SameStyle r.toLayout {}
  table := ¬ (r.tRows = 0 ∧ r.tlen = 0 ∧ r.colW = fun _ => 0)
  flag := r.tableOverflowed = true

/-- **A pass begins abreast of one on a new renderer.** -/
theorem abreast_begin (r : PageRenderer) (tbuf : Nat → UInt8) (scroll : UInt16) :
    Abreast r.stale (r.begin scroll) ((fresh tbuf).begin scroll) where
  lock := ⟨rfl, ⟨rfl, rfl⟩, ⟨[], rfl, rfl⟩, fun _ => ⟨rfl, rfl, rfl⟩⟩
  face hj := by
    obtain ⟨hhead, hrow⟩ := not_not.mp hj
    exact ⟨hhead.symm, hrow.symm⟩
  bold hj := (Bool.eq_false_iff.mpr hj).symm
  rule hj := (Bool.eq_false_iff.mpr hj).symm
  style hj := by
    obtain ⟨hlit, hund, hbg, hluma⟩ := not_not.mp hj
    exact ⟨hlit, hund, hbg, hluma⟩
  cols := rfl
  table hj := by
    obtain ⟨hrows, hlen, hw⟩ := not_not.mp hj
    -- with no rows and no bytes held there is no cell on which the tables could differ
    have hnone (i : Nat) : ¬ i < r.tRows := by
      rw [hrows]
      exact Nat.not_lt_zero i
    have hempty (i : Nat) : ¬ i < r.tlen := by
      rw [hlen]
      exact Nat.not_lt_zero i
    refine ⟨⟨hw.symm, hlen.symm, fun i hi => absurd hi (hnone i), fun i hi => absurd hi (hempty i),
      fun i hi => absurd hi (hnone i), ?_, fun hj => (Bool.eq_false_iff.mpr hj).symm⟩, hrows.symm,
      rfl⟩
    show r.tlen ≤ tBytes
    rw [hlen]
    exact Nat.zero_le _
  noCols _ := rfl
  flag hj := (Bool.eq_false_iff.mpr hj).symm

/-- **Two passes with the same outcome**: what they draw, and what they report at the end. -/
structure SameOutcome (p q : PageRenderer) : Prop where
  /-- The operations. -/
  ops_eq : issued p.log = issued q.log
  /-- `content_height`. -/
  contentHeight_eq : p.contentHeight = q.contentHeight
  /-- The links. -/
  links_eq : p.links = q.links
  /-- The holes. -/
  missing_eq : p.missing = q.missing
  /-- `table_overflowed`. -/
  tableOverflowed_eq : p.tableOverflowed = q.tableOverflowed

/-- **A pass that reads nothing stale** has the outcome that it has on a new renderer, as long as
the report of the last table was false or some table begins. -/
theorem begin_eq_fresh (o : Options) (r : PageRenderer) (tbuf : Nat → UInt8) (scroll : UInt16)
    {cs : List Callback}
    (hun : Runs.Along (track o) (fun p cb => p.1.Unread o p.2 cb) (r.stale, r.begin scroll) cs)
    (hflag : r.tableOverflowed = false ∨ ∃ st, Callback.tableBegin st ∈ cs) :
    SameOutcome (Runs.run (step o) (r.begin scroll) cs)
      (Runs.run (step o) ((fresh tbuf).begin scroll) cs) := by
  have habreast : Abreast (Runs.run (track o) (r.stale, r.begin scroll) cs).1
      (Runs.run (track o) (r.stale, r.begin scroll) cs).2
      (Runs.run (step o) ((fresh tbuf).begin scroll) (cs.map id)) :=
    hun.simulation id (fun p s => Abreast p.1 p.2 s) (fun _ _ _ h hun => abreast_step h hun)
      (abreast_begin r tbuf scroll)
  rw [track_snd, List.map_id] at habreast
  obtain ⟨m, hlog, hlog'⟩ := habreast.lock.log_eq
  obtain ⟨hlinks, hmissing, -⟩ := habreast.lock.reports_eq trivial
  refine ⟨?_, habreast.lock.y_eq.symm, hlinks.symm, hmissing.symm,
    (habreast.flag fun hj => ?_).symm⟩
  · exact congrArg issued (hlog.trans hlog'.symm)
  · obtain ⟨hset, hnone⟩ := flag_track hj
    rcases hflag with hclear | ⟨st, hst⟩
    · rw [stale, hclear] at hset
      cases hset
    · exact hnone st hst

/-- A page that begins with a link and ends with an underlined letter. -/
def linkThenUnderline : List Callback :=
  [.link (.ofList [0x62]) (.ofList [0x62]) {}, .lineEnd {},
    .text (.ofList [0x61]) { underline := true }, .lineEnd {}]

/-- After that page, one whose first line is opened by a text. -/
theorem begin_eq_fresh_text :
    SameOutcome (Runs.run (step { fonts := Display.blankFonts })
        ((pass linkThenUnderline).begin 0)
        [.text (.ofList [0x62]) {}, .link (.ofList [0x62]) (.ofList [0x62]) {}, .lineEnd {}])
      (pass [.text (.ofList [0x62]) {}, .link (.ofList [0x62]) (.ofList [0x62]) {},
        .lineEnd {}]) :=
  begin_eq_fresh _ (pass linkThenUnderline) _ 0
    ⟨fun hface => absurd (by decide +kernel) hface, ⟨id, id, id⟩, ⟨id, False.elim⟩, trivial⟩
    (.inl (by decide +kernel))

/-- **The same page, twice on one renderer**: the second time its link is underlined. -/
theorem second_pass_differs :
    ¬ ∀ (o : Options) (tbuf : Nat → UInt8) (before after : List Callback) (scroll : UInt16),
      SameOutcome
        (Runs.run (step o) ((Runs.run (step o) ((fresh tbuf).begin 0) before).begin scroll) after)
        (Runs.run (step o) ((fresh tbuf).begin scroll) after) := by
  intro h
  have htwice := (h { fonts := Display.blankFonts } (fun _ => 0) linkThenUnderline
    linkThenUnderline 0).ops_eq
  revert htwice
  decide +kernel

end PageRenderer

end Thicket.Page
