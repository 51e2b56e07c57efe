import Thicket.Page.Collect
import Thicket.Page.Dress

/-! # What a table loses

Four bounds end the collecting of a table: its rows, its columns, the bytes of the buffer and the
bytes of a cell. The first and the third raise `_table_overflowed`; the other two do not, and the
flag is taken back by the next table and kept by the next page. -/

namespace Thicket.Page

open Thicket.Lcd Thicket.Page.Span

namespace TableState

variable (row : Span)

/-! ## One row -/

/-- **A byte is lost**: less of a cell is stored than it shows. -/
def ByteLost (t : TableState) : Prop :=
  ∃ j < tColsMax, ∃ cell, (rowCells row)[j]? = some cell ∧
    (t.addRow row).cellLen t.tRows j < (shown row cell).length

/-- **Something of a row is lost**: the row, a column of it, or a byte of what a cell shows. -/
def Lost (t : TableState) : Prop :=
  ¬ Separator row ∧ ((t.addRow row).tRows = t.tRows ∨ tColsMax < (rowCells row).length ∨
    ByteLost row t)

/-- A cell is cut by the end of the buffer, short of its own bound. -/
def CutByBuffer (t : TableState) (cell : Nat × Nat) : Prop :=
  Strip.kept t.tlen 0 (shown row cell).length < 255 ∧
    Strip.kept t.tlen 0 (shown row cell).length < (shown row cell).length

/-- A cell among these is cut by the end of the buffer. -/
def SomeCut (r : Nat) : List (Nat × Nat) → Nat → TableState → Prop
  | [], _, _ => False
  | cell :: cells, col, t =>
      CutByBuffer row t cell ∨ SomeCut r cells (col + 1) (t.addCell row r col cell.1 cell.2)

/-- **Collecting a row raises the flag**: there is no row left for it, or a cell is cut by the end
of the buffer. -/
def Raises (t : TableState) : Prop :=
  ¬ Separator row ∧ (tRowsMax ≤ t.tRows ∨
    SomeCut row t.tRows ((rowCells row).take tColsMax) 0 t.openTableRow)

/-- Storing cells raises the flag when one is cut. -/
theorem storeCells_overflowed (r : Nat) (cells : List (Nat × Nat)) (col : Nat) (t : TableState) :
    (storeCells row r cells col t).tableOverflowed = true ↔
      t.tableOverflowed = true ∨ SomeCut row r cells col t := by
  induction cells generalizing col t with
  | nil => exact ⟨.inl, fun h => h.resolve_right id⟩
  | cons cell cells ih =>
    -- the flag is the disjunction of what the cells report
    rw [storeCells, ih, SomeCut, (addCell_spec row r col cell.1 cell.2 t).1, Bool.or_eq_true,
      decide_eq_true_eq, or_assoc]
    exact Iff.rfl

/-- **The flag after a row.** -/
theorem addRow_overflowed (t : TableState) :
    (t.addRow row).tableOverflowed = true ↔ t.tableOverflowed = true ∨ Raises row t := by
  rw [addRow_eq, Raises]
  split
  next hsep => exact ⟨.inl, fun h => h.resolve_right fun hr => hr.1 hsep⟩
  next hsep =>
    split
    next hfull => exact ⟨fun _ => .inr ⟨hsep, .inl hfull⟩, fun _ => rfl⟩
    next hroom =>
      have hcut := storeCells_overflowed row t.tRows ((rowCells row).take tColsMax) 0 t.openTableRow
      constructor
      · intro h
        rcases hcut.mp h with hold | hnew
        · exact .inl hold
        · exact .inr ⟨hsep, .inr hnew⟩
      · rintro (hold | ⟨-, hfull | hnew⟩)
        · exact hcut.mpr (.inl hold)
        · exact absurd hfull hroom
        · exact hcut.mpr (.inr hnew)

/-- A cell that is cut is stored short. -/
theorem exists_short_of_someCut (r : Nat) (cells : List (Nat × Nat)) (col : Nat) (t : TableState)
    (h : SomeCut row r cells col t) : ∃ j cell, cells[j]? = some cell ∧
      (storeCells row r cells col t).cellLen r (col + j) < (shown row cell).length := by
  induction cells generalizing col t with
  | nil => exact h.elim
  | cons cell cells ih =>
    rcases h with hcut | hlater
    · refine ⟨0, cell, rfl, ?_⟩
      show (storeCells row r cells (col + 1) _).cellLen r col < _
      rw [storeCells_cellLen row r cells (show col < col + 1 by omega),
        (addCell_spec row r col cell.1 cell.2 t).2.1, Function.update_self, Function.update_self]
      exact hcut.2
    · obtain ⟨j, other, hother, hlt⟩ := ih (col + 1) _ hlater
      refine ⟨j + 1, other, hother, ?_⟩
      rw [storeCells, Nat.add_comm j, ← Nat.add_assoc]
      exact hlt

/-- **Nothing raises the flag but a loss.** -/
theorem Raises.lost {row : Span} {t : TableState} (h : Raises row t) : Lost row t := by
  obtain ⟨hsep, hfull | hcut⟩ := h
  · refine ⟨hsep, .inl ?_⟩
    rw [addRow_eq, if_neg hsep, if_pos hfull]
  · by_cases hfull : tRowsMax ≤ t.tRows
    · refine ⟨hsep, .inl ?_⟩
      rw [addRow_eq, if_neg hsep, if_pos hfull]
    · obtain ⟨j, cell, hcell, hlt⟩ := exists_short_of_someCut row _ _ _ _ hcut
      -- the cell that is cut is one of those that are taken
      have hj : j < tColsMax := by
        by_contra hge
        rw [List.getElem?_eq_none ((List.length_take_le _ _).trans (Nat.not_lt.mp hge))] at hcell
        cases hcell
      refine ⟨hsep, .inr (.inr ⟨j, hj, cell, ?_, ?_⟩)⟩
      · rwa [List.getElem?_take_of_lt hj] at hcell
      · rw [addRow_eq, if_neg hsep, if_neg hfull]
        rwa [Nat.zero_add] at hlt

end TableState

/-! ## Whole pages -/

open PageRenderer

/-- A callback that loses something. -/
def Loses (r : PageRenderer) : Callback → Prop
  | .tableRow row _ => r.toTableState.Lost row
  | _ => False

/-- A callback that raises the flag. -/
def RaisesFlag (r : PageRenderer) : Callback → Prop
  | .tableRow row _ => r.toTableState.Raises row
  | _ => False

/-- A callback that takes the flag back. -/
def Begins : Callback → Prop
  | .tableBegin _ => True
  | _ => False

instance : ∀ c, Decidable (Begins c)
  | .tableBegin _ => isTrue trivial
  | .blankLine | .text _ _ | .link _ _ _ | .divider _ _ | .field _ _ | .anchor | .lineEnd _
  | .tableRow _ _ | .tableEnd _ | .image _ _ _ | .part _ _ => isFalse id

variable {o : Options}

/-- **The flag after a callback**: a table takes it back, a row may raise it, and nothing else
touches it. -/
theorem step_overflowed (r : PageRenderer) (c : Callback) :
    (r.step o c).tableOverflowed = true ↔
      ¬ Begins c ∧ (r.tableOverflowed = true ∨ RaisesFlag r c) := by
  have hkeep : ∀ {s : PageRenderer}, s.toTableState = r.toTableState →
      (s.tableOverflowed = true ↔ ¬ False ∧ (r.tableOverflowed = true ∨ False)) := by
    intro s hs
    rw [hs, or_false, not_false_eq_true, true_and]
  cases c with
  | tableBegin s => exact ⟨fun h => absurd h Bool.false_ne_true, fun h => absurd trivial h.1⟩
  | tableRow row s =>
    refine (r.toTableState.addRow_overflowed row).trans ?_
    exact ⟨fun h => ⟨id, h⟩, And.right⟩
  | tableEnd s =>
    -- the fitting changes the widths of the columns alone
    have hflush : (r.onTableEnd o s).tableOverflowed = r.tableOverflowed := by
      rw [onTableEnd, tableFlush]
      split
      · rfl
      · split
        · rfl
        · have htable := (frame_keepsDress.drawTable (o := o) (r.setDepth s).fitTable).table_eq
          have hflag := congrArg TableState.tableOverflowed htable
          exact hflag
    rw [show r.step o (.tableEnd s) = r.onTableEnd o s from rfl, hflush]
    exact ⟨fun h => ⟨id, .inl h⟩, fun h => h.2.resolve_right id⟩
  | text t s => exact hkeep (onlyPen_emitRun t _ (r.openText o t s)).table_eq
  | lineEnd s => exact hkeep (onLineEnd_keeps s r).2
  | _ => exact hkeep (keepsDress_step rfl r).table_eq

/-- **Something of a page is lost**: a row, a column, or a byte of what a cell shows. -/
def PageLoses (o : Options) (r : PageRenderer) (cs : List Callback) : Prop :=
  Runs.Sometime (step o) Loses r cs

/-- The flag of an earlier page is up, and the page has no table that takes it back. -/
def StaleFlag (r : PageRenderer) (cs : List Callback) : Prop :=
  r.tableOverflowed = true ∧ ∀ c ∈ cs, ¬ Begins c

/-- The flag goes up, and no later table takes it back. -/
def RaisedLast (o : Options) (r : PageRenderer) (cs : List Callback) : Prop :=
  ∃ pre c post, cs = pre ++ c :: post ∧ RaisesFlag (Runs.run (step o) r pre) c ∧
    ¬ Begins c ∧ ∀ d ∈ post, ¬ Begins d

/-- **The flag after a page.** -/
theorem run_overflowed (r : PageRenderer) (cs : List Callback) :
    (Runs.run (step o) r cs).tableOverflowed = true ↔ StaleFlag r cs ∨ RaisedLast o r cs := by
  -- on the callbacks from the back: the last one decides, unless it leaves the flag alone
  induction cs using List.reverseRecOn with
  | nil =>
    constructor
    · intro h
      exact .inl ⟨h, fun c hc => absurd hc List.not_mem_nil⟩
    · rintro (h | ⟨pre, c, post, hnil, -⟩)
      · exact h.1
      · exact absurd hnil (by simp)
  | append_singleton cs c ih =>
    rw [Runs.run_append, Runs.run_cons, Runs.run_nil, step_overflowed, ih]
    constructor
    · rintro ⟨hc, (⟨hflag, hcs⟩ | ⟨pre, d, post, rfl, hd, hdb, hpost⟩) | hraise⟩
      · refine .inl ⟨hflag, fun d hd => ?_⟩
        rcases List.mem_append.mp hd with hd | hd
        · exact hcs d hd
        · exact List.mem_singleton.mp hd ▸ hc
      · refine .inr ⟨pre, d, post ++ [c], by simp, hd, hdb, fun e he => ?_⟩
        rcases List.mem_append.mp he with he | he
        · exact hpost e he
        · exact List.mem_singleton.mp he ▸ hc
      · exact .inr ⟨cs, c, [], rfl, hraise, hc, fun e he => absurd he List.not_mem_nil⟩
    · rintro (⟨hflag, hcs⟩ | ⟨pre, d, post, heq, hd, hdb, hpost⟩)
      · exact ⟨hcs c (by simp), .inl (.inl ⟨hflag, fun e he => hcs e (by simp [he])⟩)⟩
      · rcases post.eq_nil_or_concat with rfl | ⟨post, e, rfl⟩
        · obtain ⟨rfl, hce⟩ := List.append_inj' heq rfl
          obtain rfl := List.singleton_inj.mp hce
          exact ⟨hdb, .inr hd⟩
        · rw [List.concat_eq_append, ← List.cons_append, ← List.append_assoc] at heq
          obtain ⟨rfl, hce⟩ := List.append_inj' heq rfl
          obtain rfl := List.singleton_inj.mp hce
          rw [List.concat_eq_append] at hpost
          exact ⟨hpost c (by simp), .inl (.inr ⟨pre, d, post, rfl, hd, hdb,
            fun f hf => hpost f (by simp [hf])⟩)⟩

/-- The flag tells, after a pass, whether something of the page was lost. -/
def FlagTells (o : Options) (r : PageRenderer) (scroll : UInt16) (cs : List Callback) : Prop :=
  (Runs.run (step o) (r.begin scroll) cs).tableOverflowed = true ↔ PageLoses o (r.begin scroll) cs

/-- A page whose flag goes up for good has lost something. -/
theorem RaisedLast.loses {cs : List Callback} (h : RaisedLast o r cs) : PageLoses o r cs := by
  obtain ⟨pre, c, post, heq, hraise, -⟩ := h
  refine ⟨pre, c, post, heq, ?_⟩
  cases c with
  | tableRow row s => exact TableState.Raises.lost hraise
  | _ => exact hraise

/-- **The flag tells of a loss exactly for the pages that, if they lose anything, run out of rows or
of the buffer in their last table**, and that do not take over the flag of an earlier page. -/
theorem flagTells_iff (o : Options) (r : PageRenderer) (scroll : UInt16) (cs : List Callback) :
    FlagTells o r scroll cs ↔
      (PageLoses o (r.begin scroll) cs →
        StaleFlag (r.begin scroll) cs ∨ RaisedLast o (r.begin scroll) cs) ∧
      (StaleFlag (r.begin scroll) cs → PageLoses o (r.begin scroll) cs) := by
  rw [FlagTells, run_overflowed]
  constructor
  · intro h
    exact ⟨h.mpr, fun hstale => h.mp (.inl hstale)⟩
  · rintro ⟨hloss, hstale⟩
    refine ⟨?_, hloss⟩
    rintro (hold | hraised)
    · exact hstale hold
    · exact hraised.loses

/-- A row of seven cells. -/
def sevenCells : List UInt8 :=
  [0x61, 0x7C, 0x62, 0x7C, 0x63, 0x7C, 0x64, 0x7C, 0x65, 0x7C, 0x66, 0x7C, 0x67]

/-- The seventh is lost, and the flag does not tell. -/
theorem seventh_cell_unreported : ¬ FlagTells { fonts := Display.blankFonts } (fresh fun _ => 0) 0
    [.tableBegin {}, .tableRow (.ofList sevenCells) {}, .tableEnd {}] := by
  intro h
  have hloss : PageLoses { fonts := Display.blankFonts } ((fresh fun _ => 0).begin 0)
      [.tableBegin {}, .tableRow (.ofList sevenCells) {}, .tableEnd {}] :=
    ⟨[.tableBegin {}], .tableRow (.ofList sevenCells) {}, [.tableEnd {}], rfl,
      by decide +kernel, .inr (.inl (by decide +kernel))⟩
  exact absurd (h.mpr hloss) (by decide +kernel)

end Thicket.Page
