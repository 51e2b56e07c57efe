import Thicket.Page.Table

/-! # Collecting the rows of a table

A cell is stored in two steps: its markup is stripped, which leaves its visible text, and as much of
that is kept as the bounds allow. A row is split into cells, and the first six are stored. -/

namespace Thicket.Page

namespace Strip

variable (row : Span) (tlen : Nat)

/-! ## Visible text -/

/-- **The visible text of a cell** from `k` on: commands are gone and a link is its label. -/
def visible (ce : Nat) : Nat → Nat → List UInt8
  | 0, _ => []
  | fuel + 1, k =>
      if k < ce then
        if row.byte k = 0x60 ∧ k + 1 < ce then
          if row.byte (k + 1) = 0x5B then
            let e := linkEnd row ce k
            let stop := labelEnd row ce k
            (List.range' (k + 2) (stop - (k + 2))).map row.byte
              ++ visible ce fuel (if e < ce then e + 1 else ce)
          else visible ce fuel (min (k + skipOf row ce k) ce)
        else row.byte k :: visible ce fuel (k + 1)
      else []

/-- The visible text of the cell `[cs, ce)`. -/
def visibleText (cs ce : Nat) : List UInt8 := visible row ce (ce - cs) cs

/-- A link is closed behind its opening bracket. -/
theorem le_linkEnd (ce k : Nat) : k + 2 ≤ linkEnd row ce k := le_scan _

/-- A command is skipped with its letter. -/
theorem two_le_skipOf (ce k : Nat) : 2 ≤ skipOf row ce k := by
  simp only [skipOf]
  split_ifs <;> decide

/-- A cell without markup is its own visible text. -/
theorem visible_of_plain {ce fuel k : Nat} (hfuel : ce - k ≤ fuel)
    (h : ∀ j, k ≤ j → j < ce → row.byte j ≠ 0x60) :
    visible row ce fuel k = (List.range' k (ce - k)).map row.byte := by
  induction fuel generalizing k with
  | zero =>
    rw [Nat.le_zero.mp hfuel]
    rfl
  | succ fuel ih =>
    rw [visible]
    split
    next hk =>
      have hlen : ce - k = (ce - (k + 1)) + 1 := by omega
      rw [if_neg fun hc => h k (Nat.le_refl k) hk hc.1, hlen, List.range'_succ, List.map_cons,
        ih (by omega) fun j hj => h j (by omega)]
    next hk =>
      rw [Nat.sub_eq_zero_of_le (Nat.not_lt.mp hk)]
      rfl

/-! ## What is kept -/

/-- Bytes into the buffer, up to the 255 of a cell and the end of the buffer. -/
def keep : List UInt8 → Strip → Strip
  | [], s => s
  | c :: cs, s =>
      if s.n < 255 then
        if tlen + s.n < tBytes then keep cs (s.put tlen c) else { s with overflowed := true }
      else s

/-- A full cell keeps nothing. -/
theorem keep_of_full {s : Strip} (h : ¬ s.n < 255) (cs : List UInt8) : keep tlen cs s = s := by
  cases cs with
  | nil => rfl
  | cons c cs => rw [keep, if_neg h]

/-- A full buffer keeps nothing, and has said so. -/
theorem keep_of_overflowed {s : Strip} (h : ¬ tlen + s.n < tBytes) (hover : s.overflowed = true)
    (cs : List UInt8) : keep tlen cs s = s := by
  cases cs with
  | nil => rfl
  | cons c cs =>
    rw [keep, if_neg h]
    split
    · rw [← hover]
    · rfl

/-- Bytes and more bytes. -/
theorem keep_append (cs ds : List UInt8) (s : Strip) :
    keep tlen (cs ++ ds) s = keep tlen ds (keep tlen cs s) := by
  induction cs generalizing s with
  | nil => rfl
  | cons c cs ih =>
    rw [List.cons_append, keep, keep]
    split
    · split
      · exact ih _
      next hfull =>
        -- the first bytes have filled the buffer, and the others find it so
        exact (keep_of_overflowed tlen (s := { s with overflowed := true }) hfull rfl ds).symm
    next hfull => exact (keep_of_full tlen hfull ds).symm

/-- The label of a link is kept byte by byte. -/
theorem label_eq_keep (qs : List Nat) (s : Strip) :
    label row tlen qs s = keep tlen (qs.map row.byte) s := by
  induction qs generalizing s with
  | nil => rfl
  | cons q qs ih =>
    rw [label, List.map_cons, keep]
    split
    · split
      · exact ih _
      · rfl
    · rfl

/-- **A cell is stripped, and what is left is kept.** -/
theorem text_eq_keep (ce fuel k : Nat) (s : Strip) :
    text row tlen ce fuel k s = keep tlen (visible row ce fuel k) s := by
  induction fuel generalizing k s with
  | zero => rfl
  | succ fuel ih =>
    rw [text, visible]
    by_cases hk : k < ce
    · by_cases hn : s.n < 255
      · rw [if_pos ⟨hk, hn⟩, if_pos hk]
        split
        · split
          · rw [keep_append, ih, label_eq_keep]
          · exact ih _ s
        · rw [keep, if_pos hn]
          split
          · exact ih _ _
          · rfl
      · -- the loop stops at a full cell, and a full cell keeps nothing
        rw [if_neg fun hc => hn hc.2, keep_of_full tlen hn]
    · rw [if_neg fun hc => hk hc.1, if_neg hk]
      rfl

/-- How many of `len` bytes are kept behind the `n` that the cell has. -/
def kept (n len : Nat) : Nat := min len (min (255 - n) (tBytes - (tlen + n)))

/-- A byte put in front of the bytes that are kept behind it. -/
theorem bytes_put (c : UInt8) (cs : List UInt8) (s : Strip) (k j : Nat) :
    (if tlen + (s.n + 1) ≤ j ∧ j < tlen + (s.n + 1) + k then cs.getD (j - (tlen + (s.n + 1))) 0
      else (s.put tlen c).tbuf j)
      = if tlen + s.n ≤ j ∧ j < tlen + s.n + (k + 1) then (c :: cs).getD (j - (tlen + s.n)) 0
        else s.tbuf j := by
  -- the byte just put, or one further on
  rcases Nat.lt_trichotomy j (tlen + s.n) with hlt | rfl | hgt
  · rw [if_neg (by omega), if_neg (by omega)]
    exact Function.update_of_ne (Nat.ne_of_lt hlt) _ _
  · rw [if_neg (by omega), if_pos (by omega), Nat.sub_self]
    exact Function.update_self _ _ _
  · have hidx : j - (tlen + s.n) = (j - (tlen + (s.n + 1))) + 1 := by omega
    have hold : (s.put tlen c).tbuf j = s.tbuf j :=
      Function.update_of_ne (Nat.ne_of_gt hgt) _ _
    rw [hidx, List.getD_cons_succ, hold]
    exact if_congr (by omega) rfl rfl

/-- **What is kept**: a first part of the bytes, behind what the cell has; and the buffer's bound is
reported when it cuts the part short. -/
theorem keep_spec (cs : List UInt8) (s : Strip) :
    (keep tlen cs s).n = s.n + kept tlen s.n cs.length ∧
      (keep tlen cs s).overflowed
        = (s.overflowed || decide (s.n + kept tlen s.n cs.length < 255
            ∧ kept tlen s.n cs.length < cs.length)) ∧
      ∀ j, (keep tlen cs s).tbuf j
        = if tlen + s.n ≤ j ∧ j < tlen + s.n + kept tlen s.n cs.length then
            cs.getD (j - (tlen + s.n)) 0
          else s.tbuf j := by
  induction cs generalizing s with
  | nil =>
    refine ⟨by simp [keep, kept], by simp [keep, kept], fun j => ?_⟩
    rw [if_neg (by simp [kept]), keep]
  | cons c cs ih =>
    rw [keep]
    split
    next hn =>
      split
      next hroom =>
        obtain ⟨hcount, hover, hbytes⟩ := ih (s.put tlen c)
        have hput : (s.put tlen c).n = s.n + 1 := rfl
        have hkept : kept tlen s.n (c :: cs).length = kept tlen (s.n + 1) cs.length + 1 := by
          simp only [kept, List.length_cons]
          omega
        rw [hput] at hcount hover hbytes
        refine ⟨by rw [hcount, hkept]; omega, ?_, fun j => ?_⟩
        · rw [hover, hkept]
          congr 1
          simp only [List.length_cons, decide_eq_decide]
          omega
        · rw [hbytes, hkept]
          exact bytes_put tlen c cs s _ j
      next hfull =>
        -- the buffer is full, and that is reported
        have hkept : kept tlen s.n (c :: cs).length = 0 := by
          simp only [kept]
          omega
        refine ⟨by rw [hkept]; rfl, ?_, fun j => ?_⟩
        · rw [hkept, Nat.add_zero]
          simp [hn]
        · rw [hkept, if_neg (by omega)]
    next hfull =>
      -- the cell is full, and nothing is reported
      have hkept : kept tlen s.n (c :: cs).length = 0 := by
        simp only [kept]
        omega
      refine ⟨by rw [hkept]; rfl, ?_, fun j => ?_⟩
      · rw [hkept, Nat.add_zero]
        simp [hfull]
      · rw [hkept, if_neg (by omega)]

end Strip

namespace TableState

variable (row : Span)

/-! ## One cell -/

/-- **A cell is stored**: as much of its visible text as is kept, behind all that is stored already,
and nothing else changes but the width of its column. -/
theorem addCell_spec (r col cs ce : Nat) (t : TableState) :
    (t.addCell row r col cs ce).tableOverflowed
        = (t.tableOverflowed || decide
          (Strip.kept t.tlen 0 (Strip.visibleText row cs ce).length < 255 ∧
            Strip.kept t.tlen 0 (Strip.visibleText row cs ce).length
              < (Strip.visibleText row cs ce).length)) ∧
      (t.addCell row r col cs ce).cellLen = Function.update t.cellLen r
        (Function.update (t.cellLen r) col
          (Strip.kept t.tlen 0 (Strip.visibleText row cs ce).length)) ∧
      (t.addCell row r col cs ce).cellOff
        = Function.update t.cellOff r (Function.update (t.cellOff r) col t.tlen) ∧
      (t.addCell row r col cs ce).tlen
        = (t.tlen + Strip.kept t.tlen 0 (Strip.visibleText row cs ce).length) % 65536 ∧
      ∀ j, (t.addCell row r col cs ce).tbuf j
        = if t.tlen ≤ j ∧ j < t.tlen
              + Strip.kept t.tlen 0 (Strip.visibleText row cs ce).length then
            (Strip.visibleText row cs ce).getD (j - t.tlen) 0
          else t.tbuf j := by
  obtain ⟨hcount, hover, hbytes⟩ :=
    Strip.keep_spec t.tlen (Strip.visibleText row cs ce) ⟨t.tbuf, 0, t.tableOverflowed⟩
  -- skipping the markup and copying the rest is keeping the visible text
  rw [Strip.visibleText, ← Strip.text_eq_keep] at hcount hover hbytes
  simp only [Nat.zero_add, Nat.add_zero] at hcount hover hbytes
  refine ⟨hover, ?_, rfl, ?_, hbytes⟩
  · simp only [addCell, hcount, Strip.visibleText]
  · simp only [addCell, hcount, Strip.visibleText]

/-! ## One row -/

/-- Where the text of a row begins and ends, without the bars and blanks around it. -/
def trimmed : Nat × Nat :=
  let a := scan (fun k => isEdge (row.byte k)) (fun _ => 1) row.len 0
  (a, backWhile (fun k => isEdge (row.byte k)) a row.len)

/-- A separator row, which carries alignment in markdown and no content here. -/
def Separator : Prop :=
  (trimmed row).1 < (trimmed row).2 ∧
    (List.range' (trimmed row).1 ((trimmed row).2 - (trimmed row).1)).all fun k =>
      isSeparator (row.byte k)

instance : Decidable (Separator row) := inferInstanceAs (Decidable (_ ∧ _))

/-- Where the text of the cell that begins at `i` ends: at the next bar, or with the row. -/
def cellEnd (b i : Nat) : Nat := scan (fun k => row.byte k != 0x7C) (fun _ => 1) b i

/-- Where a cell begins and ends, without the blanks around it. -/
def cellSpan (b i : Nat) : Nat × Nat :=
  let cs := scan (fun k => isSpace (row.byte k)) (fun _ => 1) (cellEnd row b i) i
  (cs, backWhile (fun k => isSpace (row.byte k)) cs (cellEnd row b i))

/-- The cells of a row from `i` on, however many there are. -/
def splitFrom (b : Nat) : Nat → Nat → List (Nat × Nat)
  | 0, _ => []
  | fuel + 1, i =>
      if i ≤ b then cellSpan row b i :: splitFrom b fuel (cellEnd row b i + 1) else []

/-- **The cells of a row**, however many there are. -/
def rowCells : List (Nat × Nat) :=
  splitFrom row (trimmed row).2 ((trimmed row).2 + 1 - (trimmed row).1) (trimmed row).1

/-- What a cell of a row shows. -/
def shown (cell : Nat × Nat) : List UInt8 := Strip.visibleText row cell.1 cell.2

/-- Cells into columns, from one on. -/
def storeCells (r : Nat) : List (Nat × Nat) → Nat → TableState → TableState
  | [], _, t => t
  | cell :: cells, col, t => storeCells r cells (col + 1) (t.addCell row r col cell.1 cell.2)

/-- Storing cells leaves the rows and the columns counted. -/
theorem storeCells_counts (r : Nat) (cells : List (Nat × Nat)) (col : Nat) (t : TableState) :
    (storeCells row r cells col t).tRows = t.tRows ∧
      (storeCells row r cells col t).tableCols = t.tableCols := by
  induction cells generalizing col t with
  | nil => exact ⟨rfl, rfl⟩
  | cons cell cells ih => exact ih (col + 1) _

/-- Cells further right leave what is stored. -/
theorem storeCells_cellLen (r : Nat) (cells : List (Nat × Nat)) {col j : Nat} (hj : j < col)
    (t : TableState) : (storeCells row r cells col t).cellLen r j = t.cellLen r j := by
  induction cells generalizing col t with
  | nil => rfl
  | cons cell cells ih =>
    rw [storeCells, ih (Nat.lt_succ_of_lt hj), (addCell_spec row r col cell.1 cell.2 t).2.1,
      Function.update_self, Function.update_of_ne (Nat.ne_of_lt hj)]

/-- A cell ends where it begins, or later. -/
theorem le_cellEnd (b i : Nat) : i ≤ cellEnd row b i := le_scan _

/-- **The loop over the cells of a row stores the first of them.** -/
theorem addCells_eq (b r left fuel i col : Nat) (t : TableState) (hfuel : b + 1 - i ≤ fuel) :
    addCells row b r left i col t
      = (col + ((splitFrom row b fuel i).take left).length,
        storeCells row r ((splitFrom row b fuel i).take left) col t) := by
  induction left generalizing i col t fuel with
  | zero => rfl
  | succ left ih =>
    rw [addCells]
    split
    next hi =>
      obtain ⟨fuel, rfl⟩ : ∃ j, fuel = j + 1 := ⟨fuel - 1, by omega⟩
      have hend := le_cellEnd row b i
      rw [splitFrom, if_pos hi, List.take_succ_cons, List.length_cons]
      refine Eq.trans (ih fuel (cellEnd row b i + 1) (col + 1) _ (by omega)) ?_
      rw [Nat.add_assoc col 1, Nat.add_comm 1]
      rfl
    next hi =>
      -- no cell begins behind the end of the row
      have hnone : splitFrom row b fuel i = [] := by
        cases fuel with
        | zero => rfl
        | succ fuel => rw [splitFrom, if_neg hi]
      rw [hnone]
      rfl

/-- The row after the last, empty. -/
def openTableRow (t : TableState) : TableState :=
  { t with cellOff := Function.update t.cellOff t.tRows fun _ => 0
           cellLen := Function.update t.cellLen t.tRows fun _ => 0 }

/-- **`onTableRow`**, in terms of the cells of the row. -/
theorem addRow_eq (t : TableState) : t.addRow row =
    if Separator row then t
    else if tRowsMax ≤ t.tRows then { t with tableOverflowed := true }
    else { storeCells row t.tRows ((rowCells row).take tColsMax) 0 t.openTableRow with
      tableCols := max t.tableCols ((rowCells row).take tColsMax).length
      tRows := t.tRows + 1 } := by
  -- the row is no separator and there is room for it: its cells are stored
  have hcells := addCells_eq row (trimmed row).2 t.tRows tColsMax
    ((trimmed row).2 + 1 - (trimmed row).1) (trimmed row).1 0 t.openTableRow (Nat.le_refl _)
  rw [addRow]
  refine if_congr Iff.rfl rfl (if_congr Iff.rfl rfl ?_)
  refine (congrArg (fun p : Nat × TableState =>
    { p.2 with tableCols := max p.2.tableCols p.1, tRows := t.tRows + 1 }) hcells).trans ?_
  have hcols := (storeCells_counts row t.tRows ((rowCells row).take tColsMax) 0 t.openTableRow).2
  rw [rowCells] at hcols ⊢
  rw [hcols, Nat.zero_add]
  rfl

end TableState

end Thicket.Page
