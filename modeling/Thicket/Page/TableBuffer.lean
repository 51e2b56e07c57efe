import Mathlib.Algebra.Order.BigOperators.Group.Finset
import Mathlib.Data.Finset.Lattice.Fold
import Mathlib.Order.Lattice.Nat
import Thicket.Base.While
import Thicket.Page.Collect

/-! # The buffer of a table

`_tbuf` is filled cell by cell in row-major order. What is written is a trace beside the loops of
`onTableRow`: every index that `_tbuf` is assigned at. The invariant of the buffer says where each
cell stands in it: behind all that is stored before it, and what it adds ends at `_tlen`. -/

namespace Thicket.Page

open Thicket.Page.Span

/-! ## What is written -/

namespace Strip

variable (row : Span) (tlen : Nat)

/-- Where the label of a link is written. -/
def labelWrites : List Nat → Strip → List Nat
  | [], _ => []
  | q :: qs, s =>
      if s.n < 255 then
        if tlen + s.n < tBytes then (tlen + s.n) :: labelWrites qs (s.put tlen (row.byte q)) else []
      else []

/-- Where the bytes of a cell are written. -/
def textWrites (ce : Nat) : Nat → Nat → Strip → List Nat
  | 0, _, _ => []
  | fuel + 1, k, s =>
      if k < ce ∧ s.n < 255 then
        if row.byte k = 0x60 ∧ k + 1 < ce then
          -- a link: only its label is copied
          if row.byte (k + 1) = 0x5B then
            let e := linkEnd row ce k
            let qs := List.range' (k + 2) (labelEnd row ce k - (k + 2))
            labelWrites row tlen qs s
              ++ textWrites ce fuel (if e < ce then e + 1 else ce) (label row tlen qs s)
          else textWrites ce fuel (min (k + skipOf row ce k) ce) s
        else if tlen + s.n < tBytes then
          (tlen + s.n) :: textWrites ce fuel (k + 1) (s.put tlen (row.byte k))
        else []
      else []

variable {row tlen}

/-- A label is written inside the buffer. -/
theorem lt_of_mem_labelWrites {qs : List Nat} {s : Strip} {i : Nat}
    (h : i ∈ labelWrites row tlen qs s) : i < tBytes := by
  induction qs generalizing s with
  | nil => cases h
  | cons q qs ih =>
    rw [labelWrites] at h
    split at h
    · split at h
      next hroom =>
        rcases List.mem_cons.mp h with rfl | h
        · exact hroom
        · exact ih h
      next => cases h
    · cases h

/-- **A cell is written inside the buffer**, whatever its bytes. -/
theorem lt_of_mem_textWrites {ce fuel k : Nat} {s : Strip} {i : Nat}
    (h : i ∈ textWrites row tlen ce fuel k s) : i < tBytes := by
  induction fuel generalizing k s with
  | zero => cases h
  | succ fuel ih =>
    rw [textWrites] at h
    split at h
    · split at h
      · split at h
        · rcases List.mem_append.mp h with h | h
          · exact lt_of_mem_labelWrites h
          · exact ih h
        · exact ih h
      · split at h
        next hroom =>
          rcases List.mem_cons.mp h with rfl | h
          · exact hroom
          · exact ih h
        next => cases h
    · cases h

/-- What a byte is not put at stays. -/
theorem tbuf_put_of_ne {c : UInt8} {s : Strip} {i : Nat} (h : i ≠ tlen + s.n) :
    (s.put tlen c).tbuf i = s.tbuf i :=
  Function.update_of_ne h _ _

/-- A label leaves the rest of the buffer. -/
theorem tbuf_label {qs : List Nat} {s : Strip} {i : Nat} (h : i ∉ labelWrites row tlen qs s) :
    (label row tlen qs s).tbuf i = s.tbuf i := by
  induction qs generalizing s with
  | nil => rfl
  | cons q qs ih =>
    rw [labelWrites] at h
    rw [label]
    split
    next hn =>
      rw [if_pos hn] at h
      split
      next hroom =>
        rw [if_pos hroom, List.mem_cons, not_or] at h
        rw [ih h.2, tbuf_put_of_ne h.1]
      next => rfl
    next => rfl

/-- **A cell leaves the rest of the buffer.** -/
theorem tbuf_text {ce fuel k : Nat} {s : Strip} {i : Nat}
    (h : i ∉ textWrites row tlen ce fuel k s) :
    (text row tlen ce fuel k s).tbuf i = s.tbuf i := by
  induction fuel generalizing k s with
  | zero => rfl
  | succ fuel ih =>
    rw [textWrites] at h
    rw [text]
    split
    next hk =>
      rw [if_pos hk] at h
      split
      next hcmd =>
        rw [if_pos hcmd] at h
        split
        next hlink =>
          rw [if_pos hlink, List.mem_append, not_or] at h
          rw [ih h.2, tbuf_label h.1]
        next hlink =>
          rw [if_neg hlink] at h
          exact ih h
      next hcmd =>
        rw [if_neg hcmd] at h
        split
        next hroom =>
          rw [if_pos hroom, List.mem_cons, not_or] at h
          rw [ih h.2, tbuf_put_of_ne h.1]
        next => rfl
    next => rfl

end Strip

namespace TableState

variable (row : Span)

/-- Where a cell is written. -/
def addCellWrites (cs ce : Nat) (t : TableState) : List Nat :=
  Strip.textWrites row t.tlen ce (ce - cs) cs ⟨t.tbuf, 0, t.tableOverflowed⟩

/-- Where the cells of a row are written. -/
def addCellsWrites (b r : Nat) : Nat → Nat → Nat → TableState → List Nat
  | 0, _, _, _ => []
  | left + 1, i, col, t =>
      if i ≤ b then
        let cs := (cellSpan row b i).1
        let ce := (cellSpan row b i).2
        addCellWrites row cs ce t
          ++ addCellsWrites b r left (cellEnd row b i + 1) (col + 1) (t.addCell row r col cs ce)
      else []

/-- **Where `onTableRow` writes to `_tbuf`.** -/
def addRowWrites (t : TableState) : List Nat :=
  if Separator row then []
  else if tRowsMax ≤ t.tRows then []
  else addCellsWrites row (trimmed row).2 t.tRows tColsMax (trimmed row).1 0 t.openTableRow

/-- Cells are written inside the buffer. -/
theorem lt_of_mem_addCellsWrites {b r left i col : Nat} {t : TableState} {j : Nat}
    (h : j ∈ addCellsWrites row b r left i col t) : j < tBytes := by
  induction left generalizing i col t with
  | zero => cases h
  | succ left ih =>
    rw [addCellsWrites] at h
    split at h
    · rcases List.mem_append.mp h with h | h
      · exact Strip.lt_of_mem_textWrites h
      · exact ih h
    · cases h

/-- **A row is written inside the buffer.** -/
theorem lt_of_mem_addRowWrites {t : TableState} {j : Nat} (h : j ∈ addRowWrites row t) :
    j < tBytes := by
  rw [addRowWrites] at h
  split at h
  · cases h
  · split at h
    · cases h
    · exact lt_of_mem_addCellsWrites row h

/-- Cells leave the rest of the buffer. -/
theorem tbuf_addCells {b r left i col : Nat} {t : TableState} {j : Nat}
    (h : j ∉ addCellsWrites row b r left i col t) :
    (addCells row b r left i col t).2.tbuf j = t.tbuf j := by
  induction left generalizing i col t with
  | zero => rfl
  | succ left ih =>
    rw [addCellsWrites] at h
    rw [addCells]
    split
    next hi =>
      rw [if_pos hi, List.mem_append, not_or] at h
      exact (ih h.2).trans (Strip.tbuf_text h.1)
    next => rfl

/-- **A row leaves the rest of the buffer.** -/
theorem tbuf_addRow {t : TableState} {j : Nat} (h : j ∉ addRowWrites row t) :
    (t.addRow row).tbuf j = t.tbuf j := by
  rw [addRowWrites] at h
  rw [addRow]
  by_cases hsep : Separator row
  · rw [if_pos (by exact hsep)]
  · rw [if_neg (by exact hsep)]
    rw [if_neg hsep] at h
    split
    next => rfl
    next hroom =>
      rw [if_neg hroom] at h
      exact tbuf_addCells row h

/-! ## Where the cells stand -/

/-- The bytes of a row. -/
def rowBytes (t : TableState) (i : Nat) : Nat := ∑ c ∈ Finset.range tColsMax, t.cellLen i c

/-- The bytes in front of a cell in row-major order: the rows above, and the cells to its left. -/
def before (t : TableState) (i c : Nat) : Nat :=
  ∑ j ∈ Finset.range i, t.rowBytes j + ∑ d ∈ Finset.range c, t.cellLen i d

/-- The width of a cell. -/
def cellCells (t : TableState) (i c : Nat) : Nat := (t.cell i c).cells 0 (t.cellLen i c)

/-- **The rows in the buffer**: `n` of them are begun, and row `i` has its first `count i` cells. -/
structure Rows (t : TableState) (n : Nat) (count : Nat → Nat) : Prop where
  /-- The buffer is not overrun. -/
  tlen_le : t.tlen ≤ tBytes
  /-- No row has more cells than there are columns. -/
  count_le : ∀ i < n, count i ≤ tColsMax
  /-- A cell's length is a byte. -/
  len_le : ∀ i < n, ∀ c, t.cellLen i c ≤ 255
  /-- A row has no other cells. -/
  empty : ∀ i < n, ∀ c, count i ≤ c → t.cellLen i c = 0
  /-- A cell begins behind all that is stored before it. -/
  off_eq : ∀ i < n, ∀ c < count i, t.cellOff i c = t.before i c
  /-- The cells make up what is stored. -/
  filled : t.before n 0 = t.tlen
  /-- A column is as wide as its widest cell. -/
  width : ∀ c, t.colW c = (Finset.range n).sup fun i => t.cellCells i c

/-- An empty cell has no width. -/
theorem cellCells_of_empty {t : TableState} {i c : Nat} (h : t.cellLen i c = 0) :
    t.cellCells i c = 0 := by
  rw [cellCells, h]
  rfl

/-- The bytes in front of a row are those of the rows above. -/
theorem before_zero (t : TableState) (i : Nat) :
    t.before i 0 = ∑ j ∈ Finset.range i, t.rowBytes j := by
  rw [before, Finset.range_zero, Finset.sum_empty, Nat.add_zero]

/-- A cell is in front of the next one. -/
theorem before_succ (t : TableState) (i c : Nat) :
    t.before i (c + 1) = t.before i c + t.cellLen i c := by
  rw [before, before, Finset.sum_range_succ, Nat.add_assoc]

/-- The bytes in front grow along a row. -/
theorem before_mono (t : TableState) (i : Nat) {c d : Nat} (h : c ≤ d) :
    t.before i c ≤ t.before i d :=
  Nat.add_le_add_left (Finset.sum_le_sum_of_subset (Finset.range_subset_range.mpr h)) _

/-- A row is in front of the next one. -/
theorem before_row (t : TableState) (i : Nat) : t.before i tColsMax = t.before (i + 1) 0 := by
  rw [before_zero, Finset.sum_range_succ, before]
  rfl

/-- The bytes in front grow from row to row. -/
theorem before_rows_mono (t : TableState) {i j : Nat} (h : i ≤ j) :
    t.before i 0 ≤ t.before j 0 := by
  rw [before_zero, before_zero]
  exact Finset.sum_le_sum_of_subset (Finset.range_subset_range.mpr h)

/-- **What comes first in row-major order stands in front.** -/
theorem before_add_len_le (t : TableState) {i c j d : Nat} (hc : c < tColsMax)
    (h : i < j ∨ (i = j ∧ c < d)) : t.before i c + t.cellLen i c ≤ t.before j d := by
  rw [← before_succ]
  rcases h with hij | ⟨rfl, hcd⟩
  · calc t.before i (c + 1) ≤ t.before i tColsMax := t.before_mono i hc
      _ = t.before (i + 1) 0 := t.before_row i
      _ ≤ t.before j 0 := t.before_rows_mono hij
      _ ≤ t.before j d := t.before_mono j (Nat.zero_le d)
  · exact t.before_mono i hcd

/-- Empty cells add nothing. -/
theorem before_of_empty (t : TableState) {i c d : Nat} (h : c ≤ d)
    (hempty : ∀ e, c ≤ e → t.cellLen i e = 0) : t.before i d = t.before i c := by
  induction d, h using Nat.le_induction with
  | base => rfl
  | succ d hd ih => rw [before_succ, hempty d hd, Nat.add_zero, ih]

/-- Tables with the same lengths have the same bytes in front of a cell. -/
theorem before_congr {t u : TableState} {i c : Nat} (hrows : ∀ j < i, u.cellLen j = t.cellLen j)
    (hrow : ∀ d < c, u.cellLen i d = t.cellLen i d) : u.before i c = t.before i c := by
  have hbytes : ∀ j ∈ Finset.range i, u.rowBytes j = t.rowBytes j := fun j hj => by
    rw [rowBytes, rowBytes, hrows j (Finset.mem_range.mp hj)]
  rw [before, before, Finset.sum_congr rfl hbytes,
    Finset.sum_congr rfl fun d hd => hrow d (Finset.mem_range.mp hd)]

/-- A cell is no wider than it is long. -/
theorem cellCells_le (t : TableState) (i c : Nat) : t.cellCells i c ≤ t.cellLen i c :=
  (length_positions_le (seqLenAt_pos _)).trans (Nat.sub_le _ _)

/-- Cells with the same bytes are equally wide. -/
theorem cellCells_congr {t u : TableState} {i c : Nat} (hlen : u.cellLen i c = t.cellLen i c)
    (hbytes : ∀ k < t.cellLen i c,
      u.tbuf (u.cellOff i c + k) = t.tbuf (t.cellOff i c + k)) :
    u.cellCells i c = t.cellCells i c := by
  rw [cellCells, cellCells, hlen, cells, cells]
  refine congrArg _ (positions_congr fun k hk => ?_).symm
  exact congrArg seqLen (hbytes k (mem_positions hk).2).symm

/-- A function that may be updated, at one place. -/
theorem ite_update_apply {p : Prop} [Decidable p] (f : Nat → Nat) (j w c : Nat) :
    (if p then Function.update f j w else f) c = if c = j ∧ p then w else f c := by
  by_cases hp : p
  · by_cases hc : c = j
    · rw [if_pos hp, if_pos ⟨hc, hp⟩, hc, Function.update_self]
    · rw [if_pos hp, if_neg fun h => hc h.1, Function.update_of_ne hc]
  · rw [if_neg hp, if_neg fun h => hp h.2]

/-- **The width of a column after one more cell.** -/
theorem colW_addCell (r col cs ce : Nat) (t : TableState) (c : Nat) :
    (t.addCell row r col cs ce).colW c
      = if c = col ∧ (t.addCell row r col cs ce).cellLen r col ≠ 0 ∧
            t.colW col < (t.addCell row r col cs ce).cellCells r col % 256 then
          (t.addCell row r col cs ce).cellCells r col % 256
        else t.colW c := by
  have hlen : (t.addCell row r col cs ce).cellLen r col
      = (Strip.text row t.tlen ce (ce - cs) cs ⟨t.tbuf, 0, t.tableOverflowed⟩).n := by
    simp only [addCell, Function.update_self]
  have hoff : (t.addCell row r col cs ce).cellOff r col = t.tlen := by
    simp only [addCell, Function.update_self]
  rw [cellCells, cell, hlen, hoff]
  exact ite_update_apply _ _ _ _

/-- **A new cell may widen its column.** -/
theorem sup_cellCells_new {t u : TableState} {r col : Nat} (hempty : t.cellLen r col = 0)
    (hold : ∀ i < r, u.cellCells i col = t.cellCells i col) :
    ((Finset.range (r + 1)).sup fun i => u.cellCells i col)
      = max ((Finset.range (r + 1)).sup fun i => t.cellCells i col) (u.cellCells r col) := by
  have hrows : (Finset.range r).sup (fun i => u.cellCells i col)
      = (Finset.range r).sup fun i => t.cellCells i col :=
    Finset.sup_congr rfl fun i hi => hold i (Finset.mem_range.mp hi)
  rw [Finset.range_add_one, Finset.sup_insert, Finset.sup_insert, hrows,
    cellCells_of_empty hempty, Nat.max_comm]
  exact congrArg _ (Nat.max_eq_right (Nat.zero_le _)).symm

/-- A table of numbers updated at one place is what it was at the others. -/
theorem update_update_of_ne (f : Nat → Nat → Nat) {r c w i d : Nat} (h : ¬ (i = r ∧ d = c)) :
    Function.update f r (Function.update (f r) c w) i d = f i d := by
  by_cases hi : i = r
  · subst hi
    rw [Function.update_self, Function.update_of_ne fun hd => h ⟨rfl, hd⟩]
  · rw [Function.update_of_ne hi]

/-- **A table with one more cell**, of `k` bytes, at the end of what is stored. -/
structure OneMore (t u : TableState) (r col k : Nat) : Prop where
  /-- It is as long as that. -/
  len_new : u.cellLen r col = k
  /-- It begins where the others end. -/
  off_new : u.cellOff r col = t.tlen
  /-- The other cells have the lengths they had. -/
  len_old : ∀ i c, ¬ (i = r ∧ c = col) → u.cellLen i c = t.cellLen i c
  /-- They begin where they began. -/
  off_old : ∀ i c, ¬ (i = r ∧ c = col) → u.cellOff i c = t.cellOff i c
  /-- Their bytes are what they were. -/
  bytes_old : ∀ x < t.tlen, u.tbuf x = t.tbuf x
  /-- A cell's length is a byte. -/
  len_le : k ≤ 255
  /-- The buffer is not overrun. -/
  room : t.tlen + k ≤ tBytes
  /-- More is stored. -/
  tlen_eq : u.tlen = t.tlen + k

/-- **A call of `addCell` makes one more cell.** -/
theorem oneMore_addCell {t : TableState} (ht : t.tlen ≤ tBytes) (r col cs ce : Nat) :
    ∃ k, OneMore t (t.addCell row r col cs ce) r col k := by
  obtain ⟨-, hlen, hoff, htlen, hbytes⟩ := addCell_spec row r col cs ce t
  generalize hk : Strip.kept t.tlen 0 (Strip.visibleText row cs ce).length = k at hlen htlen hbytes
  have hfit : k ≤ 255 ∧ t.tlen + k ≤ tBytes := by
    simp only [Strip.kept] at hk
    omega
  refine ⟨k, ?_, ?_, fun i c hne => ?_, fun i c hne => ?_, fun x hx => ?_, hfit.1, hfit.2, ?_⟩
  · rw [hlen, Function.update_self, Function.update_self]
  · rw [hoff, Function.update_self, Function.update_self]
  · rw [hlen, update_update_of_ne _ hne]
  · rw [hoff, update_update_of_ne _ hne]
  · rw [hbytes, if_neg fun h => Nat.not_le.mpr hx h.1]
  · rw [htlen, Nat.mod_eq_of_lt (Nat.lt_of_le_of_lt hfit.2 (by decide))]

namespace OneMore

variable {t u : TableState} {r col k : Nat}

/-- What is in front of a cell that is not behind the new one is what was. -/
theorem before_eq (h : OneMore t u r col k) {i c : Nat} (hic : i < r ∨ (i = r ∧ c ≤ col)) :
    u.before i c = t.before i c := by
  refine before_congr (fun j hj => funext fun d => h.len_old j d ?_) fun d hd => h.len_old i d ?_
  · omega
  · omega

end OneMore

namespace Rows

variable {row} {t : TableState} {n : Nat} {count : Nat → Nat}

/-- **A stored cell lies within what is stored.** -/
theorem inside (h : Rows t n count) {i c : Nat} (hi : i < n) (hc : c < count i) :
    t.cellOff i c + t.cellLen i c ≤ t.tlen := by
  rw [h.off_eq i hi c hc, ← h.filled]
  exact t.before_add_len_le (Nat.lt_of_lt_of_le hc (h.count_le i hi)) (.inl hi)

/-- An empty row behind the others. -/
theorem openRow (h : Rows t t.tRows count) :
    Rows t.openTableRow (t.tRows + 1) (Function.update count t.tRows 0) := by
  have hold : ∀ j < t.tRows, t.openTableRow.cellLen j = t.cellLen j := fun j hj =>
    Function.update_of_ne (Nat.ne_of_lt hj) _ _
  have hnew : t.openTableRow.cellLen t.tRows = fun _ => 0 := Function.update_self _ _ _
  have hoff : ∀ j < t.tRows, t.openTableRow.cellOff j = t.cellOff j := fun j hj =>
    Function.update_of_ne (Nat.ne_of_lt hj) _ _
  have hcount : ∀ j < t.tRows, Function.update count t.tRows 0 j = count j := fun j hj =>
    Function.update_of_ne (Nat.ne_of_lt hj) _ _
  have hlast : Function.update count t.tRows 0 t.tRows = 0 := Function.update_self _ _ _
  have hsplit : ∀ i, i < t.tRows + 1 → i < t.tRows ∨ i = t.tRows := fun i hi =>
    Nat.lt_or_eq_of_le (Nat.le_of_lt_succ hi)
  refine ⟨h.tlen_le, fun i hi => ?_, fun i hi c => ?_, fun i hi c hc => ?_, fun i hi c hc => ?_, ?_,
    fun c => ?_⟩
  · rcases hsplit i hi with hi | rfl
    · rw [hcount i hi]
      exact h.count_le i hi
    · rw [hlast]
      exact Nat.zero_le _
  · rcases hsplit i hi with hi | rfl
    · rw [hold i hi]
      exact h.len_le i hi c
    · rw [hnew]
      exact Nat.zero_le _
  · rcases hsplit i hi with hi | rfl
    · rw [hold i hi]
      exact h.empty i hi c (hcount i hi ▸ hc)
    · rw [hnew]
  · rcases hsplit i hi with hi | rfl
    · rw [hoff i hi, h.off_eq i hi c (hcount i hi ▸ hc)]
      exact (before_congr (fun j hj => hold j (hj.trans hi)) fun d _ => by rw [hold i hi]).symm
    · rw [hlast] at hc
      exact absurd hc (Nat.not_lt_zero c)
  · -- the new row adds nothing
    rw [← before_row, before, hnew, ← Nat.add_zero t.openTableRow.tlen]
    congr 1
    exact ((before_zero _ _).symm.trans (before_congr hold fun d hd =>
      absurd hd (Nat.not_lt_zero d))).trans h.filled
  · have hwidth : ∀ i ∈ Finset.range t.tRows, t.openTableRow.cellCells i c = t.cellCells i c := by
      intro i hi
      have hi' := Finset.mem_range.mp hi
      exact cellCells_congr (by rw [hold i hi']) fun k _ => by rw [hoff i hi']; rfl
    rw [Finset.range_add_one, Finset.sup_insert, cellCells_of_empty (by rw [hnew]),
      Finset.sup_congr rfl hwidth, ← h.width c]
    exact (Nat.max_eq_right (Nat.zero_le _)).symm

/-- The cell that comes next begins at the end of what is stored. -/
theorem before_next {r : Nat} (h : Rows t (r + 1) count) : t.before r (count r) = t.tlen := by
  rw [← h.filled, ← before_row]
  exact (t.before_of_empty (h.count_le r (Nat.lt_succ_self r))
    (h.empty r (Nat.lt_succ_self r))).symm

/-- Of one more cell the others keep their bytes. -/
theorem cellCells_oneMore {u : TableState} {r col k : Nat} (h : Rows t (r + 1) count)
    (hmore : OneMore t u r col k) {i c : Nat} (hi : i < r + 1) (hne : ¬ (i = r ∧ c = col)) :
    u.cellCells i c = t.cellCells i c := by
  refine cellCells_congr (hmore.len_old i c hne) fun j hj => ?_
  by_cases hc : c < count i
  · have hin := h.inside hi hc
    rw [hmore.off_old i c hne, hmore.bytes_old _ (by omega)]
  · rw [h.empty i hi c (Nat.not_lt.mp hc)] at hj
    exact absurd hj (Nat.not_lt_zero j)

/-- The columns are as wide as before but for the one of the new cell. -/
theorem width_addCell {r : Nat} (h : Rows t (r + 1) count) (cs ce : Nat) (c : Nat) :
    (t.addCell row r (count r) cs ce).colW c
      = (Finset.range (r + 1)).sup fun i => (t.addCell row r (count r) cs ce).cellCells i c := by
  have hwidth := colW_addCell row r (count r) cs ce t c
  obtain ⟨k, hmore⟩ := oneMore_addCell row h.tlen_le r (count r) cs ce
  generalize t.addCell row r (count r) cs ce = u at hwidth hmore ⊢
  have hlast := Nat.lt_succ_self r
  rw [hwidth]
  by_cases hc : c = count r
  · subst hc
    have hsmall : u.cellCells r (count r) ≤ 255 :=
      (u.cellCells_le r (count r)).trans (hmore.len_new ▸ hmore.len_le)
    -- `addCell` widens the column only for a cell that is not empty
    have hzero : u.cellLen r (count r) = 0 → u.cellCells r (count r) = 0 := cellCells_of_empty
    rw [sup_cellCells_new (h.empty r hlast _ (Nat.le_refl _)) fun i hi =>
      h.cellCells_oneMore hmore (Nat.lt_succ_of_lt hi) fun hn => Nat.ne_of_lt hi hn.1,
      ← h.width, Nat.mod_eq_of_lt (Nat.lt_succ_of_le hsmall)]
    simp only [Nat.max_def, true_and]
    split_ifs <;> omega
  · rw [if_neg fun hn => hc hn.1, h.width c]
    refine Finset.sup_congr rfl fun i hi => ?_
    exact (h.cellCells_oneMore hmore (Finset.mem_range.mp hi) fun hn => hc hn.2).symm

/-- **One more cell.** -/
theorem addCell {r : Nat} (h : Rows t (r + 1) count) (hcol : count r < tColsMax) (cs ce : Nat) :
    Rows (t.addCell row r (count r) cs ce) (r + 1) (Function.update count r (count r + 1)) := by
  have hwidth : ∀ c, (t.addCell row r (count r) cs ce).colW c = _ := h.width_addCell cs ce
  obtain ⟨k, hmore⟩ := oneMore_addCell row h.tlen_le r (count r) cs ce
  generalize t.addCell row r (count r) cs ce = u at hmore hwidth ⊢
  have hlast := Nat.lt_succ_self r
  have hcountNew : Function.update count r (count r + 1) r = count r + 1 :=
    Function.update_self _ _ _
  have hcountOld : ∀ i, i ≠ r → Function.update count r (count r + 1) i = count i := fun i hi =>
    Function.update_of_ne hi _ _
  have hnext : u.before r (count r) = t.tlen := by
    rw [hmore.before_eq (.inr ⟨rfl, Nat.le_refl _⟩), h.before_next]
  have hempty : ∀ c, count r + 1 ≤ c → u.cellLen r c = 0 := fun c hc => by
    rw [hmore.len_old r c (by omega)]
    exact h.empty r hlast c (by omega)
  refine ⟨?_, fun i hi => ?_, fun i hi c => ?_, fun i hi c hc => ?_, fun i hi c hc => ?_, ?_,
    hwidth⟩
  · rw [hmore.tlen_eq]
    exact hmore.room
  · by_cases hir : i = r
    · rw [hir, hcountNew]
      exact hcol
    · rw [hcountOld i hir]
      exact h.count_le i hi
  · by_cases hnew : i = r ∧ c = count r
    · rw [hnew.1, hnew.2, hmore.len_new]
      exact hmore.len_le
    · rw [hmore.len_old i c hnew]
      exact h.len_le i hi c
  · by_cases hir : i = r
    · subst hir
      exact hempty c (hcountNew ▸ hc)
    · rw [hcountOld i hir] at hc
      rw [hmore.len_old i c fun hn => hir hn.1]
      exact h.empty i hi c hc
  · by_cases hnew : i = r ∧ c = count r
    · rw [hnew.1, hnew.2, hmore.off_new, hnext]
    · -- an old cell, in front of the new one
      have hc' : c < count i ∧ (i < r ∨ (i = r ∧ c ≤ count r)) := by
        by_cases hir : i = r
        · subst hir
          rw [hcountNew] at hc
          omega
        · rw [hcountOld i hir] at hc
          omega
      rw [hmore.off_old i c hnew, hmore.before_eq hc'.2]
      exact h.off_eq i hi c hc'.1
  · calc u.before (r + 1) 0 = u.before r tColsMax := (u.before_row r).symm
      _ = u.before r (count r + 1) := u.before_of_empty hcol hempty
      _ = u.before r (count r) + k := by rw [before_succ, hmore.len_new]
      _ = t.tlen + k := by rw [hnext]
      _ = u.tlen := hmore.tlen_eq.symm

/-- **More cells**, one after the other. -/
theorem storeCells {r : Nat} (cells : List (Nat × Nat)) {col : Nat} (h : Rows t (r + 1) count)
    (hcol : count r = col) (hroom : col + cells.length ≤ tColsMax) :
    Rows (storeCells row r cells col t) (r + 1) (Function.update count r (col + cells.length)) := by
  induction cells generalizing t count col with
  | nil =>
    rw [List.length_nil, Nat.add_zero col, ← hcol, Function.update_eq_self]
    exact h
  | cons cell cells ih =>
    rw [List.length_cons] at hroom
    have hnext : Rows (t.addCell row r (count r) cell.1 cell.2) (r + 1)
        (Function.update count r (count r + 1)) := h.addCell (by omega) cell.1 cell.2
    rw [hcol] at hnext
    have hrest := ih hnext (Function.update_self _ _ _) (by omega)
    rw [Function.update_idem, Nat.add_assoc, Nat.add_comm 1] at hrest
    exact hrest

end Rows

/-- **What the calls of a table leave**: `count i` cells of row `i` are stored. -/
structure BufferOk (t : TableState) (count : Nat → Nat) : Prop extends Rows t t.tRows count where
  /-- No more rows than there is room for. -/
  rows_le : t.tRows ≤ tRowsMax
  /-- As many columns as the longest row has cells. -/
  cols_eq : t.tableCols = (Finset.range t.tRows).sup count

namespace BufferOk

variable {row} {t : TableState} {count : Nat → Nat}

/-- No more columns than there is room for. -/
theorem cols_le (h : BufferOk t count) : t.tableCols ≤ tColsMax := by
  rw [h.cols_eq, Finset.sup_le_iff]
  exact fun i hi => h.count_le i (Finset.mem_range.mp hi)

/-- **Stored cells do not meet**: the first ends where the other begins, or before. -/
theorem apart (h : BufferOk t count) {i c j d : Nat} (hi : i < t.tRows) (hc : c < count i)
    (hj : j < t.tRows) (hd : d < count j) (hfirst : i < j ∨ (i = j ∧ c < d)) :
    t.cellOff i c + t.cellLen i c ≤ t.cellOff j d := by
  rw [h.off_eq i hi c hc, h.off_eq j hj d hd]
  exact t.before_add_len_le (Nat.lt_of_lt_of_le hc (h.count_le i hi)) hfirst

/-- **One row.** -/
theorem addRow (h : BufferOk t count) : ∃ count', BufferOk (t.addRow row) count' := by
  rw [addRow_eq]
  split
  next => exact ⟨count, h⟩
  next =>
    split
    next =>
      exact ⟨count, ⟨⟨h.tlen_le, h.count_le, h.len_le, h.empty, h.off_eq, h.filled, h.width⟩,
        h.rows_le, h.cols_eq⟩⟩
    next hroom =>
      have hlen : 0 + ((rowCells row).take tColsMax).length ≤ tColsMax := by
        rw [Nat.zero_add]
        exact List.length_take_le _ _
      have hrows : Rows (storeCells row t.tRows ((rowCells row).take tColsMax) 0 t.openTableRow)
          (t.tRows + 1) (Function.update (Function.update count t.tRows 0) t.tRows
            (0 + ((rowCells row).take tColsMax).length)) :=
        h.openRow.storeCells _ (Function.update_self _ _ _) hlen
      rw [Nat.zero_add, Function.update_idem] at hrows
      refine ⟨_, ⟨⟨hrows.tlen_le, hrows.count_le, hrows.len_le, hrows.empty, hrows.off_eq,
        hrows.filled, hrows.width⟩, Nat.not_le.mp hroom, ?_⟩⟩
      -- the longest row is one of the old ones or the new one
      have hold : ∀ i ∈ Finset.range t.tRows,
          Function.update count t.tRows ((rowCells row).take tColsMax).length i = count i :=
        fun i hi => Function.update_of_ne (Finset.mem_range.mp hi).ne _ _
      dsimp only
      rw [Finset.range_add_one, Finset.sup_insert, Function.update_self, Finset.sup_congr rfl hold,
        ← h.cols_eq]
      exact Nat.max_comm _ _

/-- **A table that begins is empty**, whatever was stored. -/
theorem clear (t : TableState) : BufferOk t.clear fun _ => 0 where
  tlen_le := Nat.zero_le _
  count_le _ _ := Nat.zero_le _
  len_le _ hi := absurd hi (Nat.not_lt_zero _)
  empty _ hi := absurd hi (Nat.not_lt_zero _)
  off_eq _ hi := absurd hi (Nat.not_lt_zero _)
  filled := rfl
  width _ := rfl
  rows_le := Nat.zero_le _
  cols_eq := rfl

end BufferOk

end TableState

/-! ## The loops -/

namespace Strip

variable (row : Span) (tlen : Nat)

/-- One turn of the loop that copies a label; the flag is its `break`. -/
def labelTurn (q : Nat × Strip × Bool) : Nat × Strip × Bool :=
  if tlen + q.2.1.n < tBytes then (q.1 + 1, q.2.1.put tlen (row.byte q.1), false)
  else (q.1, { q.2.1 with overflowed := true }, true)

/-- One turn of the loop over a cell; the flag is its `break`. -/
def textTurn (ce : Nat) (q : Nat × Strip × Bool) : Nat × Strip × Bool :=
  if row.byte q.1 = 0x60 ∧ q.1 + 1 < ce then
    if row.byte (q.1 + 1) = 0x5B then
      (if linkEnd row ce q.1 < ce then linkEnd row ce q.1 + 1 else ce,
        label row tlen (List.range' (q.1 + 2) (labelEnd row ce q.1 - (q.1 + 2))) q.2.1, false)
    else (min (q.1 + skipOf row ce q.1) ce, q.2.1, false)
  else if tlen + q.2.1.n < tBytes then (q.1 + 1, q.2.1.put tlen (row.byte q.1), false)
  else (q.1, { q.2.1 with overflowed := true }, true)

/-- **The loop over a label ends.** -/
theorem exits_label (stop k : Nat) (s : Strip) :
    ∃ e broke, Exits (fun q : Nat × Strip × Bool => q.1 < stop ∧ q.2.1.n < 255 ∧ q.2.2 = false)
      (labelTurn row tlen) (k, s, false)
      (e, label row tlen (List.range' k (stop - k)) s, broke) := by
  induction hm : stop - k generalizing k s with
  | zero => exact ⟨k, false, .stop fun h => absurd h.1 (by omega)⟩
  | succ m ih =>
    have hk : k < stop := by omega
    rw [List.range'_succ, label]
    split
    next hn =>
      split
      next hroom =>
        obtain ⟨e, broke, he⟩ := ih (k + 1) (s.put tlen (row.byte k)) (by omega)
        refine ⟨e, broke, .turn ⟨hk, hn, rfl⟩ ?_⟩
        rw [labelTurn, if_pos hroom]
        exact he
      next hroom =>
        refine ⟨k, true, .turn ⟨hk, hn, rfl⟩ ?_⟩
        rw [labelTurn, if_neg hroom]
        exact .stop fun h => Bool.noConfusion h.2.2
    next hn => exact ⟨k, false, .stop fun h => hn h.2.1⟩

/-- **The loop over a cell ends**: every turn but the last goes on at least one byte. -/
theorem exits_text (ce fuel k : Nat) (s : Strip) (hfuel : ce - k ≤ fuel) :
    ∃ e broke, Exits (fun q : Nat × Strip × Bool => q.1 < ce ∧ q.2.1.n < 255 ∧ q.2.2 = false)
      (textTurn row tlen ce) (k, s, false) (e, text row tlen ce fuel k s, broke) := by
  -- on the bytes that are left of the cell
  induction fuel generalizing k s with
  | zero => exact ⟨k, false, .stop fun h => absurd h.1 (by omega)⟩
  | succ fuel ih =>
    have hlink := le_linkEnd row ce k
    have hskip := two_le_skipOf row ce k
    rw [text]
    split
    next hk =>
      split
      next hcmd =>
        split
        next hbracket =>
          obtain ⟨e, broke, he⟩ := ih (if linkEnd row ce k < ce then linkEnd row ce k + 1 else ce)
            (label row tlen (List.range' (k + 2) (labelEnd row ce k - (k + 2))) s)
            (by split <;> omega)
          refine ⟨e, broke, .turn ⟨hk.1, hk.2, rfl⟩ ?_⟩
          rw [textTurn, if_pos hcmd, if_pos hbracket]
          exact he
        next hbracket =>
          obtain ⟨e, broke, he⟩ := ih (min (k + skipOf row ce k) ce) s (by omega)
          refine ⟨e, broke, .turn ⟨hk.1, hk.2, rfl⟩ ?_⟩
          rw [textTurn, if_pos hcmd, if_neg hbracket]
          exact he
      next hcmd =>
        split
        next hroom =>
          obtain ⟨e, broke, he⟩ := ih (k + 1) (s.put tlen (row.byte k)) (by omega)
          refine ⟨e, broke, .turn ⟨hk.1, hk.2, rfl⟩ ?_⟩
          rw [textTurn, if_neg hcmd, if_pos hroom]
          exact he
        next hroom =>
          refine ⟨k, true, .turn ⟨hk.1, hk.2, rfl⟩ ?_⟩
          rw [textTurn, if_neg hcmd, if_neg hroom]
          exact .stop fun h => Bool.noConfusion h.2.2
    next hk => exact ⟨k, false, .stop fun h => hk ⟨h.1, h.2.1⟩⟩

/-- One turn of the loop that looks for the bracket of a link, and for the first backtick: `e` and
`bar`. -/
def bracketTurn (ce : Nat) (q : Nat × Nat) : Nat × Nat :=
  (q.1 + 1, if row.byte q.1 = 0x60 ∧ q.2 = ce then q.1 else q.2)

/-- Behind the first backtick the loop only looks for the bracket. -/
theorem exits_bracket_of_bar {ce bar : Nat} (hbar : bar < ce) (j : Nat) :
    Exits (fun q : Nat × Nat => q.1 < ce ∧ row.byte q.1 ≠ 0x5D) (bracketTurn row ce) (j, bar)
      (scan (fun q => row.byte q != 0x5D) (fun _ => 1) ce j, bar) := by
  induction hm : ce - j using Nat.strongRecOn generalizing j with
  | _ m ih =>
    rw [scan_eq fun _ => Nat.one_pos]
    by_cases hj : j < ce ∧ row.byte j ≠ 0x5D
    · have hbyte : (row.byte j != 0x5D) = true := bne_iff_ne.mpr hj.2
      rw [if_pos ⟨hj.1, hbyte⟩]
      refine .turn hj ?_
      rw [bracketTurn, if_neg fun h => absurd h.2 hbar.ne]
      exact ih (ce - (j + 1)) (by omega) (j + 1) rfl
    · rw [if_neg fun h => hj ⟨h.1, bne_iff_ne.mp h.2⟩]
      exact .stop hj

/-- **The loop over a link ends** at its bracket, with the first backtick before it. -/
theorem exits_bracket (ce j : Nat) :
    ∃ bar, Exits (fun q : Nat × Nat => q.1 < ce ∧ row.byte q.1 ≠ 0x5D) (bracketTurn row ce) (j, ce)
        (scan (fun q => row.byte q != 0x5D) (fun _ => 1) ce j, bar) ∧
      (if bar < ce then bar else scan (fun q => row.byte q != 0x5D) (fun _ => 1) ce j)
        = scan (fun q => row.byte q != 0x60) (fun _ => 1)
            (scan (fun q => row.byte q != 0x5D) (fun _ => 1) ce j) j := by
  induction hm : ce - j using Nat.strongRecOn generalizing j with
  | _ m ih =>
    by_cases hj : j < ce ∧ row.byte j ≠ 0x5D
    · have hbyte : (row.byte j != 0x5D) = true := bne_iff_ne.mpr hj.2
      have hend : scan (fun q => row.byte q != 0x5D) (fun _ => 1) ce j
          = scan (fun q => row.byte q != 0x5D) (fun _ => 1) ce (j + 1) := by
        rw [scan_eq fun _ => Nat.one_pos, if_pos ⟨hj.1, hbyte⟩]
      have hlt : j < scan (fun q => row.byte q != 0x5D) (fun _ => 1) ce (j + 1) := le_scan (j + 1)
      rw [hend]
      -- the first backtick is kept as the bar, and later ones do not move it
      by_cases htick : row.byte j = 0x60
      · refine ⟨j, .turn hj ?_, ?_⟩
        · rw [bracketTurn, if_pos ⟨htick, rfl⟩]
          exact exits_bracket_of_bar row hj.1 (j + 1)
        · rw [if_pos hj.1, scan_eq fun _ => Nat.one_pos, if_neg fun h => bne_iff_ne.mp h.2 htick]
      · obtain ⟨bar, hexit, hstop⟩ := ih (ce - (j + 1)) (by omega) (j + 1) rfl
        refine ⟨bar, .turn hj ?_, ?_⟩
        · rw [bracketTurn, if_neg fun h => htick h.1]
          exact hexit
        · rw [hstop]
          refine Eq.symm ?_
          rw [scan_eq fun _ => Nat.one_pos, if_pos ⟨hlt, bne_iff_ne.mpr htick⟩]
    · have hend : scan (fun q => row.byte q != 0x5D) (fun _ => 1) ce j = j := by
        rw [scan_eq fun _ => Nat.one_pos, if_neg fun h => hj ⟨h.1, bne_iff_ne.mp h.2⟩]
      rw [hend]
      refine ⟨ce, .stop hj, ?_⟩
      rw [if_neg (Nat.lt_irrefl ce), scan_eq fun _ => Nat.one_pos,
        if_neg fun h => Nat.lt_irrefl j h.1]

end Strip

namespace TableState

variable (row : Span)

/-- One turn of the loop over the cells of a row. -/
def cellTurn (b r : Nat) (q : Nat × Nat × TableState) : Nat × Nat × TableState :=
  (cellEnd row b q.1 + 1, q.2.1 + 1,
    q.2.2.addCell row r q.2.1 (cellSpan row b q.1).1 (cellSpan row b q.1).2)

/-- **The loop over the cells of a row ends.** -/
theorem exits_addCells {b r left col : Nat} (hleft : col + left = tColsMax) (i : Nat)
    (t : TableState) :
    ∃ e, Exits (fun q : Nat × Nat × TableState => q.1 ≤ b ∧ q.2.1 < tColsMax) (cellTurn row b r)
      (i, col, t) (e, addCells row b r left i col t) := by
  induction left generalizing col i t with
  | zero => exact ⟨i, .stop fun h => absurd h.2 (by dsimp only; omega)⟩
  | succ left ih =>
    rw [addCells]
    split
    next hi =>
      obtain ⟨e, he⟩ := @ih (col + 1) (by omega) (cellEnd row b i + 1)
        (t.addCell row r col (cellSpan row b i).1 (cellSpan row b i).2)
      exact ⟨e, .turn ⟨hi, by dsimp only; omega⟩ he⟩
    next hi => exact ⟨i, .stop fun h => hi h.1⟩

/-- **The loops of `onTableRow` end**, each where the model says. -/
structure RowLoopsEnd (t : TableState) : Prop where
  /-- `while (a < b && (row[a] == '|' || is_space(row[a]))) ++a`. -/
  left : Exits (fun k => k < row.len ∧ isEdge (row.byte k)) (· + 1) 0 (trimmed row).1
  /-- `while (b > a && (row[b - 1] == '|' || is_space(row[b - 1]))) --b`. -/
  right : Exits (fun b => (trimmed row).1 < b ∧ isEdge (row.byte (b - 1))) (· - 1) row.len
    (trimmed row).2
  /-- `for (i = a; i < b && sep; ++i)`. -/
  separator : ∃ e, Exits (fun q : Nat × Bool => q.1 < (trimmed row).2 ∧ q.2)
    (fun q => (q.1 + 1, isSeparator (row.byte q.1))) ((trimmed row).1, true)
    (e, (List.range' (trimmed row).1 ((trimmed row).2 - (trimmed row).1)).all fun k =>
      isSeparator (row.byte k))
  /-- `while (i <= b && col < T_COLS)`. -/
  cells : ∃ e, Exits (fun q : Nat × Nat × TableState => q.1 ≤ (trimmed row).2 ∧ q.2.1 < tColsMax)
    (cellTurn row (trimmed row).2 t.tRows) ((trimmed row).1, 0, t.openTableRow)
    (e, addCells row (trimmed row).2 t.tRows tColsMax (trimmed row).1 0 t.openTableRow)
  /-- `while (cell < b && row[cell] != '|') ++cell`. -/
  cell : ∀ b i, Exits (fun k => k < b ∧ row.byte k != 0x7C) (· + 1) i (cellEnd row b i)
  /-- `while (cs < ce && is_space(row[cs])) ++cs`. -/
  cell_left : ∀ b i, Exits (fun k => k < cellEnd row b i ∧ isSpace (row.byte k)) (· + 1) i
    (cellSpan row b i).1
  /-- `while (ce > cs && is_space(row[ce - 1])) --ce`. -/
  cell_right : ∀ b i, Exits (fun k => (cellSpan row b i).1 < k ∧ isSpace (row.byte (k - 1)))
    (· - 1) (cellEnd row b i) (cellSpan row b i).2
  /-- `for (k = cs; k < ce && n < 255; )`. -/
  text : ∀ tlen cs ce s, ∃ e broke,
    Exits (fun q : Nat × Strip × Bool => q.1 < ce ∧ q.2.1.n < 255 ∧ q.2.2 = false)
      (Strip.textTurn row tlen ce) (cs, s, false) (e, Strip.text row tlen ce (ce - cs) cs s, broke)
  /-- `while (e < ce && row[e] != ']')`. -/
  bracket : ∀ ce k, ∃ bar,
    Exits (fun q : Nat × Nat => q.1 < ce ∧ row.byte q.1 ≠ 0x5D) (Strip.bracketTurn row ce)
        (k + 2, ce) (Strip.linkEnd row ce k, bar) ∧
      (if bar < ce then bar else Strip.linkEnd row ce k) = Strip.labelEnd row ce k
  /-- `for (q = k + 2; q < stop && n < 255; ++q)`. -/
  label : ∀ tlen stop k s, ∃ e broke,
    Exits (fun q : Nat × Strip × Bool => q.1 < stop ∧ q.2.1.n < 255 ∧ q.2.2 = false)
      (Strip.labelTurn row tlen) (k, s, false)
      (e, Strip.label row tlen (List.range' k (stop - k)) s, broke)

/-- They end for every row. -/
theorem row_loops_end (t : TableState) : RowLoopsEnd row t where
  left := exits_scan (fun _ => Nat.one_pos) 0
  right := exits_backWhile (fun k => isEdge (row.byte k)) _ _
  separator := exits_all (fun k => isSeparator (row.byte k)) _ _
  cells := exits_addCells row (Nat.zero_add _) _ _
  cell _ i := exits_scan (fun _ => Nat.one_pos) i
  cell_left _ i := exits_scan (fun _ => Nat.one_pos) i
  cell_right _ _ := exits_backWhile (fun k => isSpace (row.byte k)) _ _
  text tlen cs ce s := Strip.exits_text row tlen ce (ce - cs) cs s (Nat.le_refl _)
  bracket ce k := Strip.exits_bracket row ce (k + 2)
  label tlen stop k s := Strip.exits_label row tlen stop k s

end TableState

/-! ## The calls of a table -/

/-- What the parser calls while it reads a table. -/
inductive TableCall where
  /-- `onTableBegin`. -/
  | tableBegin (s : Style)
  /-- `onTableRow`. -/
  | tableRow (row : Span) (s : Style)

namespace PageRenderer

open TableState

/-- One call. -/
def collect (r : PageRenderer) : TableCall → PageRenderer
  | .tableBegin s => r.onTableBegin s
  | .tableRow row s => r.onTableRow row s

/-- Where a call writes to `_tbuf`. -/
def tableWrites (r : PageRenderer) : TableCall → List Nat
  | .tableBegin _ => []
  | .tableRow row _ => addRowWrites row r.toTableState

/-- **The buffer of a table is safe** over a sequence of calls. -/
structure CollectsSafely (r : PageRenderer) (calls : List TableCall) : Prop where
  /-- The invariant holds behind the last call. -/
  buffer : ∃ count, BufferOk (Runs.run collect r calls).toTableState count
  /-- A stored cell lies within what is stored. -/
  inside : ∀ count, BufferOk (Runs.run collect r calls).toTableState count →
    ∀ i < (Runs.run collect r calls).tRows, ∀ c < count i,
      (Runs.run collect r calls).cellOff i c + (Runs.run collect r calls).cellLen i c
        ≤ (Runs.run collect r calls).tlen
  /-- Of two stored cells, the first in row-major order ends where the other begins, or before. -/
  apart : ∀ count, BufferOk (Runs.run collect r calls).toTableState count →
    ∀ i < (Runs.run collect r calls).tRows, ∀ c < count i,
    ∀ j < (Runs.run collect r calls).tRows, ∀ d < count j, (i < j ∨ (i = j ∧ c < d)) →
      (Runs.run collect r calls).cellOff i c + (Runs.run collect r calls).cellLen i c
        ≤ (Runs.run collect r calls).cellOff j d
  /-- There are no more columns than there is room for. -/
  cols_le : (Runs.run collect r calls).tableCols ≤ tColsMax
  /-- Every write is inside the buffer. -/
  writes : ∀ i ∈ Runs.outputs collect tableWrites r calls, i < tBytes
  /-- What is not written stays. -/
  unwritten : ∀ i ∉ Runs.outputs collect tableWrites r calls,
    (Runs.run collect r calls).tbuf i = r.tbuf i
  /-- The loops of every row end. -/
  ends : ∀ row s, TableCall.tableRow row s ∈ calls → ∀ t, RowLoopsEnd row t

/-- One call keeps the invariant. -/
theorem bufferOk_collect {r : PageRenderer} (h : ∃ count, BufferOk r.toTableState count)
    (call : TableCall) : ∃ count, BufferOk (r.collect call).toTableState count := by
  obtain ⟨count, h⟩ := h
  cases call with
  | tableBegin s => exact ⟨_, BufferOk.clear _⟩
  | tableRow row s => exact h.addRow

/-- One call writes inside the buffer. -/
theorem lt_of_mem_tableWrites {r : PageRenderer} {call : TableCall} {i : Nat}
    (h : i ∈ r.tableWrites call) : i < tBytes := by
  cases call with
  | tableBegin s => cases h
  | tableRow row s => exact lt_of_mem_addRowWrites row h

/-- One call leaves the rest of the buffer. -/
theorem tbuf_collect {r : PageRenderer} {call : TableCall} {i : Nat}
    (h : i ∉ r.tableWrites call) : (r.collect call).tbuf i = r.tbuf i := by
  cases call with
  | tableBegin s => rfl
  | tableRow row s => exact tbuf_addRow row h

/-- Calls that begin with the invariant are safe. -/
theorem BufferOk.collectsSafely {r : PageRenderer} (h : ∃ count, BufferOk r.toTableState count)
    (calls : List TableCall) : CollectsSafely r calls := by
  -- each call keeps the invariant, so a whole run does
  have hend : ∃ count, BufferOk (Runs.run collect r calls).toTableState count :=
    Runs.run_invariant (fun r : PageRenderer => ∃ count, BufferOk r.toTableState count)
      (fun _ call hr => bufferOk_collect hr call) h calls
  refine ⟨hend, fun _ hb i hi c hc => hb.inside hi hc,
    fun _ hb i hi c hc j hj d hd hfirst => hb.apart hi hc hj hd hfirst,
    hend.elim fun _ hb => hb.cols_le, ?_, ?_, fun row _ _ t => row_loops_end row t⟩
  · clear h hend
    intro i hi
    induction calls generalizing r with
    | nil => cases hi
    | cons call calls ih =>
      rcases List.mem_append.mp hi with hi | hi
      · exact lt_of_mem_tableWrites hi
      · exact ih hi
  · clear h hend
    intro i hi
    induction calls generalizing r with
    | nil => rfl
    | cons call calls ih =>
      rw [Runs.outputs_cons, List.mem_append, not_or] at hi
      exact (ih hi.2).trans (tbuf_collect hi.1)

/-- **Collecting a table is safe**: from a renderer just built, and from any renderer once a table
begins. -/
theorem table_collection_safe (tbuf : Nat → UInt8) (r : PageRenderer) (s : Style)
    (calls : List TableCall) :
    CollectsSafely (fresh tbuf) calls ∧ CollectsSafely r (.tableBegin s :: calls) := by
  refine ⟨BufferOk.collectsSafely ⟨_, BufferOk.clear (fresh tbuf).toTableState⟩ calls, ?_⟩
  have hbegun := BufferOk.collectsSafely (r := r.onTableBegin s)
    ⟨_, BufferOk.clear r.toTableState⟩ calls
  -- beginning the table writes nothing
  exact ⟨hbegun.buffer, hbegun.inside, hbegun.apart, hbegun.cols_le, hbegun.writes,
    hbegun.unwritten, fun row _ _ t => row_loops_end row t⟩

end PageRenderer

end Thicket.Page
