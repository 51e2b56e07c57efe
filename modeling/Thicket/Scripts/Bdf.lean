import Mathlib.Data.Finset.Sort
import Mathlib.Data.List.MinMax
import Mathlib.Data.Nat.Bitwise
import Thicket.Base.BinarySearch

/-! # From a bitmap font to a table

`scripts/bdf2header.py`, `bdf2big.py` and `bdf2tamzen.py` put the glyphs of a BDF font into fixed
cells and write them out as C tables in the order of their codepoints. The text of the font is read
line by line into a dictionary of glyphs, which is where this starts; of the headers, the tables and
the sizes are kept. -/

namespace Thicket.Scripts.Bdf

/-- A line of a bitmap: hexadecimal digits. -/
abbrev HexRow : Type := List (Fin 16)

/-- `int(hexrow, 16)`. -/
def HexRow.val (row : HexRow) : Nat := row.foldl (fun v d => v * 16 + d) 0

/-- `nbits`. -/
def HexRow.nbits (row : HexRow) : Nat := row.length * 4

/-- A bit of the line, from the left. -/
def HexRow.bit (row : HexRow) (x : Nat) : Bool := row.val.testBit (row.nbits - 1 - x)

/-- A glyph. -/
structure Glyph where
  /-- `BBX`: the width of the bitmap. -/
  gw : Int
  /-- Its height. -/
  gh : Int
  /-- Where its left edge is. -/
  xoff : Int
  /-- Where its lower edge is, above the baseline. -/
  yoff : Int
  /-- `BITMAP`. -/
  rows : List HexRow
  /-- `DWIDTH`: the advance. -/
  dwidth : Int

/-- What `parse` reads. -/
structure Font where
  /-- `FONT_ASCENT`. -/
  ascent : Int
  /-- `FONT_DESCENT`. -/
  descent : Int
  /-- The glyphs by their `ENCODING`, in the order they came. -/
  glyphs : List (Nat × Glyph)
  /-- A dictionary. -/
  nodup : (glyphs.map Prod.fst).Nodup

/-! ## Rendering -/

/-- The columns of a line that are looked at. -/
def Glyph.columns (g : Glyph) (row : HexRow) : Nat := (min (row.nbits : Int) g.gw).toNat

/-- The line a row of the bitmap is put on. -/
def Glyph.line (g : Glyph) (ascent : Int) (i : Nat) : Int := ascent - g.yoff - g.gh + i

/-- `acc`: a line of the cell, its leftmost column in bit `top`. -/
def Glyph.acc (g : Glyph) (top : Nat) (cellW : Int) (row : HexRow) : Nat :=
  (List.range (g.columns row)).foldl (fun acc (x : Nat) =>
    let px := (x : Int) + g.xoff
    if row.bit x = true ∧ 0 ≤ px ∧ px < cellW then acc ||| (2 ^ top >>> px.toNat) else acc) 0

/-- **`render`**: a glyph in its cell, line by line. -/
def Glyph.render (g : Glyph) (top : Nat) (cellW cellH ascent : Int) : List Nat :=
  g.rows.zipIdx.foldl (fun out r =>
    let y := g.line ascent r.2
    if 0 ≤ y ∧ y < cellH then out.modify y.toNat (· ||| g.acc top cellW r.1) else out)
    (List.replicate cellH.toNat 0)

/-- **The ink of a glyph**: its bitmap at its place in the cell, by column and line. -/
def Glyph.ink (g : Glyph) (cellW cellH ascent : Int) : Set (Nat × Nat) :=
  {d | ∃ (i : Nat) (row : HexRow) (x : Nat),
    g.rows[i]? = some row ∧ x < g.columns row ∧ row.bit x = true ∧
    (d.1 : Int) = x + g.xoff ∧ (d.2 : Int) = g.line ascent i ∧ (d.1 : Int) < cellW ∧
      (d.2 : Int) < cellH}

/-- A bit of a loop that ors in bits. -/
theorem testBit_foldl_or {α : Type} (l : List α) (p : α → Prop) [DecidablePred p] (v : α → Nat)
    (init k : Nat) : (l.foldl (fun acc a => if p a then acc ||| v a else acc) init).testBit k = true
      ↔ init.testBit k = true ∨ ∃ a ∈ l, p a ∧ (v a).testBit k = true := by
  induction l generalizing init with
  | nil => simp
  | cons a l ih =>
    rw [List.foldl_cons, ih]
    split
    next hp => simp [hp, or_assoc]
    next hp => simp [hp]

/-- A bit of a line. -/
theorem Glyph.testBit_acc (g : Glyph) {top : Nat} (cellW : Int) (row : HexRow) {col : Nat}
    (hcol : col ≤ top) :
    (g.acc top cellW row).testBit (top - col) = true ↔
      ∃ x < g.columns row, row.bit x = true ∧ (col : Int) = x + g.xoff ∧ (col : Int) < cellW := by
  rw [acc, testBit_foldl_or]
  simp only [Nat.zero_testBit, Bool.false_eq_true, false_or, List.mem_range]
  refine exists_congr fun x => and_congr_right fun _ => ?_
  rw [Nat.testBit_shiftRight, Nat.testBit_two_pow]
  constructor
  · rintro ⟨⟨hbit, h0, hlt⟩, hk⟩
    have hk := of_decide_eq_true hk
    exact ⟨hbit, by omega, by omega⟩
  · rintro ⟨hbit, hcol', hlt⟩
    exact ⟨⟨hbit, by omega, by omega⟩, decide_eq_true (by omega)⟩

/-- A line fits its bits. -/
theorem Glyph.acc_lt (g : Glyph) (top : Nat) (cellW : Int) (row : HexRow) :
    g.acc top cellW row < 2 ^ (top + 1) := by
  refine List.foldlRecOn (motive := fun acc => acc < 2 ^ (top + 1)) _ _ (Nat.two_pow_pos _)
    fun acc hacc x _ => ?_
  dsimp only
  split
  · refine Nat.or_lt_two_pow hacc ((Nat.shiftRight_le _ _).trans_lt ?_)
    exact Nat.pow_lt_pow_right Nat.one_lt_two (Nat.lt_succ_self top)
  · exact hacc

/-- The lines of a cell that bits are ored into. -/
theorem testBit_getD_foldl_modify {α : Type} (l : List α) (p : α → Prop) [DecidablePred p]
    (place : α → Nat) (v : α → Nat) (out : List Nat) (y k : Nat) :
    ((l.foldl (fun out a => if p a then out.modify (place a) (· ||| v a) else out) out).getD y
        0).testBit k = true
      ↔ (out.getD y 0).testBit k = true ∨
        y < out.length ∧ ∃ a ∈ l, p a ∧ place a = y ∧ (v a).testBit k = true := by
  induction l generalizing out with
  | nil => simp
  | cons a l ih =>
    rw [List.foldl_cons, ih]
    split
    next hp =>
      rw [List.length_modify, List.getD_eq_getElem?_getD, List.getElem?_modify,
        List.getD_eq_getElem?_getD]
      by_cases hy : place a = y
      · cases hout : out[y]? with
        | none =>
          have hlen := List.getElem?_eq_none_iff.mp hout
          simp [hy, Nat.not_lt.mpr hlen]
        | some w =>
          have hlen := (List.getElem?_eq_some_iff.mp hout).1
          simp [hp, hy, hlen, or_assoc]
      · simp [hy]
    next hp => simp [hp]

/-- **Rendering is faithful**: a bit of the cell is set exactly where the glyph has ink. -/
theorem Glyph.testBit_render (g : Glyph) {top : Nat} (cellW cellH ascent : Int) {col : Nat}
    (hcol : col ≤ top) (line : Nat) :
    ((g.render top cellW cellH ascent).getD line 0).testBit (top - col) = true
      ↔ (col, line) ∈ g.ink cellW cellH ascent := by
  have hblank : ((List.replicate cellH.toNat 0).getD line 0).testBit (top - col) = false := by
    rw [List.getD_eq_getElem?_getD, List.getElem?_replicate]
    split <;> simp
  rw [render, testBit_getD_foldl_modify, hblank, List.length_replicate, ink]
  simp only [Bool.false_eq_true, false_or, Prod.exists, List.mem_zipIdx_iff_getElem?,
    g.testBit_acc cellW _ hcol, Set.mem_ofPred_eq]
  constructor
  · rintro ⟨hline, row, i, hrow, ⟨h0, hlt⟩, hi, x, hx, hbit, hcol', hw⟩
    exact ⟨i, row, x, hrow, hx, hbit, hcol', by omega, hw, by omega⟩
  · rintro ⟨i, row, x, hrow, hx, hbit, hcol', hi, hw, hh⟩
    exact ⟨by omega, row, i, hrow, ⟨by omega, by omega⟩, by omega, x, hx, hbit, hcol', hw⟩

/-- What fits a line fits after oring in another. -/
theorem Glyph.render_lt (g : Glyph) (top : Nat) (cellW cellH ascent : Int) (line : Nat) :
    (g.render top cellW cellH ascent).getD line 0 < 2 ^ (top + 1) := by
  refine List.foldlRecOn (motive := fun out : List Nat => out.getD line 0 < 2 ^ (top + 1))
    _ _ ?_
    fun out hout r _ => ?_
  · rw [List.getD_eq_getElem?_getD, List.getElem?_replicate]
    split <;> exact Nat.two_pow_pos _
  · dsimp only
    split
    · rw [List.getD_eq_getElem?_getD, List.getElem?_modify]
      rw [List.getD_eq_getElem?_getD] at hout
      cases hget : out[line]? with
      | none => exact Nat.two_pow_pos _
      | some v =>
        rw [hget, Option.getD_some] at hout
        rw [Option.map_eq_map, Option.map_some, Option.getD_some]
        split
        · exact Nat.or_lt_two_pow hout (g.acc_lt top cellW r.1)
        · exact hout
    · exact hout

/-! ## The tables -/

/-- How far the ink of a glyph reaches: `bbx[0] + max(0, bbx[2])`. -/
def Glyph.reach (g : Glyph) : Int := g.gw + max 0 g.xoff

/-- `Counter(..).most_common(1)`: the advance of most glyphs, the first of them if there are more.
-/
def advance (glyphs : List (Nat × Glyph)) : Option Int :=
  let dwidths := glyphs.map fun g => g.2.dwidth
  dwidths.argmax fun d => dwidths.count d

/-- `max(..)`, which an empty font does not have. -/
def inkWidth (glyphs : List (Nat × Glyph)) : Option Int := (glyphs.map fun g => g.2.reach).max?

/-- `range(FIRST, LAST + 1)`. -/
def ascii : List Nat := List.range' 32 95

/-- The glyphs of some codepoints, those of them that there are, rendered. -/
def sheet (render : Glyph → List Nat) (glyphs : List (Nat × Glyph)) (codes : List Nat) :
    List (Nat × List Nat) :=
  codes.filterMap fun c => (glyphs.lookup c).map fun g => (c, render g)

/-- A generated header: the sizes and the tables. -/
structure Header where
  /-- The advance. -/
  w : Int
  /-- The width of the ink. -/
  inkW : Int
  /-- The height of the cell. -/
  h : Int
  /-- The table by index, from `FIRST` on. -/
  direct : List (List Nat)
  /-- The table by codepoint. -/
  sorted : List (Nat × List Nat)

/-- `EXTRA_RANGES` of `bdf2header.py`. -/
def extraRanges : List (Nat × Nat) :=
  [(0x00A0, 0x00FF), (0x0100, 0x017F), (0x2500, 0x257F), (0x2580, 0x259F), (0x25A0, 0x25FF)]

/-- `EXTRA_SINGLES`. -/
def extraSingles : List Nat :=
  [0x2190, 0x2191, 0x2192, 0x2193, 0x2022, 0x2026, 0x2661, 0x2665, 0x2713, 0x2717]

/-- `EXTRA` of `bdf2header.py`: `sorted(set(..))`. -/
def extra : List Nat :=
  ((extraRanges.flatMap fun r => List.range' r.1 (r.2 + 1 - r.1)) ++ extraSingles).toFinset.sort

/-- A glyph that is not one cell wide. -/
def Glyph.oversize (g : Glyph) (advance : Int) : Bool := g.dwidth != advance || decide (g.reach > 8)

/-- **`bdf2header.py`**: nothing when it exits without a header. -/
def bdf2header (f : Font) : Option Header := do
  let advance ← advance f.glyphs
  let glyphs := f.glyphs.filter fun g => !g.2.oversize advance
  let inkW ← inkWidth glyphs
  let oversize := (f.glyphs.filter fun g => g.2.oversize advance).map Prod.fst
  let missing := (ascii ++ extra).filter fun c =>
    (glyphs.lookup c).isNone && !oversize.contains c
  if missing ≠ [] then none
  else if inkW > 8 then none
  else
    let h := f.ascent + f.descent
    let render := fun g : Glyph => g.render 7 inkW h f.ascent
    -- an oversize ASCII glyph is a `KeyError`
    let direct ← ascii.mapM fun c => (glyphs.lookup c).map render
    some { w := advance, inkW, h, direct, sorted := sheet render glyphs extra }

/-- `EXTRA` of the other two. -/
def latin1 : List Nat := List.range' 0x00A0 96

/-- **`bdf2big.py`**: the heading face, 16 bits a line. -/
def bdf2big (f : Font) : Option Header := do
  let advance ← advance f.glyphs
  let glyphs := f.glyphs.filter fun g => g.2.dwidth == advance
  let inkW ← inkWidth glyphs
  if inkW > 16 then none
  else
    let h := f.ascent + f.descent
    some { w := advance, inkW, h, direct := []
           sorted := sheet (fun g => g.render 15 inkW h f.ascent) glyphs (ascii ++ latin1) }

/-- **`face`** of `bdf2tamzen.py`: a bold face, with every glyph whatever its advance. -/
def face (f : Font) : Option Header := do
  let advance ← advance f.glyphs
  let inkW ← inkWidth f.glyphs
  if inkW > 8 then none
  else
    let h := f.ascent + f.descent
    some { w := advance, inkW, h, direct := []
           sorted := sheet (fun g => g.render 7 inkW h f.ascent) f.glyphs (ascii ++ latin1) }

/-! ## What is in a table -/

/-- The entries of a sheet. -/
theorem mem_sheet {render : Glyph → List Nat} {glyphs : List (Nat × Glyph)} {codes : List Nat}
    {c : Nat} {rows : List Nat} : (c, rows) ∈ sheet render glyphs codes ↔
      c ∈ codes ∧ ∃ g, glyphs.lookup c = some g ∧ render g = rows := by
  simp only [sheet, List.mem_filterMap, Option.map_eq_some_iff, Prod.mk.injEq]
  constructor
  · rintro ⟨c, hc, g, hg, rfl, hrows⟩
    exact ⟨hc, g, hg, hrows⟩
  · rintro ⟨hc, g, hg, hrows⟩
    exact ⟨c, hc, g, hg, rfl, hrows⟩

/-- A sheet of codepoints that go up is sorted. -/
theorem sorted_sheet {codes : List Nat} (h : codes.Pairwise (· < ·)) (render : Glyph → List Nat)
    (glyphs : List (Nat × Glyph)) : BinarySearch.Sorted (sheet render glyphs codes) := by
  refine List.Pairwise.filterMap _ (fun c d hcd e he e' he' => ?_) h
  obtain ⟨g, -, rfl⟩ := Option.map_eq_some_iff.mp he
  obtain ⟨g', -, rfl⟩ := Option.map_eq_some_iff.mp he'
  exact hcd

/-- **The search of a sheet** is the dictionary of glyphs, rendered. -/
theorem search_sheet {codes : List Nat} (h : codes.Pairwise (· < ·)) (hlen : codes.length < 2 ^ 16)
    (render : Glyph → List Nat) (glyphs : List (Nat × Glyph)) (c : Nat) :
    BinarySearch.search (sheet render glyphs codes) c
      = if c ∈ codes then (glyphs.lookup c).map render else none := by
  have hcount : (sheet render glyphs codes).length < 2 ^ 16 :=
    (List.length_filterMap_le _ _).trans_lt hlen
  ext rows
  rw [BinarySearch.search_eq_some_iff (sorted_sheet h render glyphs) hcount, mem_sheet]
  split
  next hc => simp [hc]
  next hc => simp [hc]

/-- The codepoints of the body face go up. -/
theorem pairwise_extra : extra.Pairwise (· < ·) := (Finset.sortedLT_sort _).pairwise

/-- There are 490 of them. -/
theorem length_extra_lt : extra.length < 2 ^ 16 := by
  rw [extra, Finset.length_sort]
  refine (List.toFinset_card_le _).trans_lt ?_
  simp [extraRanges, extraSingles]

/-- The codepoints of the other faces go up. -/
theorem pairwise_ascii_latin1 : (ascii ++ latin1).Pairwise (· < ·) := by
  refine List.pairwise_append.mpr ⟨List.pairwise_lt_range', List.pairwise_lt_range', ?_⟩
  intro c hc d hd
  simp only [ascii, latin1, List.mem_range'_1] at hc hd
  omega

end Thicket.Scripts.Bdf
