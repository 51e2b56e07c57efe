import Thicket.Page.Slices
import Thicket.Page.Window

/-! # Fitting a table to the panel

Columns are capped at half the width, scaled when the table is too wide, kept at two cells at least,
and the widest takes what rounding leaves. The columns and their gaps fit the width exactly when the
two-cell floor adds no more than rounding left; then every slice stays on its line. -/

namespace Thicket.Page

open Thicket.Lcd Thicket.Page.Span

/-! ## The sum of the columns -/

namespace TableState

/-- Columns of the same width have the same sum. -/
theorem sumCols_congr {w v : Nat → Nat} {n : Nat} (h : ∀ c < n, w c = v c) :
    sumCols n w = sumCols n v :=
  Nat.le_antisymm (PageRenderer.sumCols_le_sumCols fun c hc => (h c hc).le)
    (PageRenderer.sumCols_le_sumCols fun c hc => (h c hc).ge)

/-- The sum of two widths. -/
theorem sumCols_add (w v : Nat → Nat) (n : Nat) :
    sumCols n (fun c => w c + v c) = sumCols n w + sumCols n v := by
  induction n with
  | zero => rfl
  | succ n ih =>
    rw [PageRenderer.sumCols_succ, PageRenderer.sumCols_succ, PageRenderer.sumCols_succ, ih]
    omega

/-- One column made wider, by as much as the sum. -/
theorem sumCols_update_add (w : Nat → Nat) (d : Nat) {i n : Nat} (hi : i < n) :
    sumCols n (Function.update w i (w i + d)) = sumCols n w + d := by
  induction n with
  | zero => exact absurd hi (Nat.not_lt_zero i)
  | succ n ih =>
    rw [PageRenderer.sumCols_succ, PageRenderer.sumCols_succ]
    rcases Nat.lt_or_eq_of_le (Nat.le_of_lt_succ hi) with hlt | rfl
    · rw [ih hlt, Function.update_of_ne (Nat.ne_of_gt hlt)]
      omega
    · rw [PageRenderer.sumCols_update_of_le w (Nat.le_refl i), Function.update_self]
      omega

/-- **Proportional shares, rounded down, are no more than the room.** -/
theorem sumCols_share_le (w : Nat → Nat) (n room sum : Nat) (h : sumCols n w ≤ sum) :
    sumCols n (fun c => w c * room / sum) ≤ room := by
  -- multiplied out, so that the quotients go column by column
  have hmul : ∀ m, sumCols m (fun c => w c * room / sum) * sum ≤ sumCols m w * room := by
    intro m
    induction m with
    | zero => exact Nat.le_of_eq (by simp [sumCols])
    | succ m ih =>
      rw [PageRenderer.sumCols_succ, PageRenderer.sumCols_succ, Nat.add_mul, Nat.add_mul]
      exact Nat.add_le_add ih (Nat.div_mul_le_self _ _)
  rcases Nat.eq_zero_or_pos sum with rfl | hpos
  · have hzero : sumCols n (fun c => w c * room / 0) ≤ n * 0 :=
      PageRenderer.sumCols_le_mul fun c _ => (Nat.div_zero _).le
    omega
  · refine Nat.le_of_mul_le_mul_right ?_ hpos
    calc sumCols n (fun c => w c * room / sum) * sum
        ≤ sumCols n w * room := hmul n
      _ ≤ sum * room := Nat.mul_le_mul_right room h
      _ = room * sum := Nat.mul_comm _ _

/-- The widest column is one of them. -/
theorem widest_lt {n : Nat} (hn : 0 < n) (w : Nat → Nat) : widest n w < n := by
  have hfold : ∀ (cs : List Nat) (best : Nat), (∀ c ∈ cs, c < n) → best < n →
      cs.foldl (fun best c => if w best < w c then c else best) best < n := by
    intro cs
    induction cs with
    | nil => exact fun best _ hbest => hbest
    | cons c cs ih =>
      intro best hcs hbest
      rw [List.foldl_cons]
      apply ih
      · exact fun d hd => hcs d (List.mem_cons_of_mem c hd)
      · split
        · exact hcs c List.mem_cons_self
        · exact hbest
  apply hfold
  · intro c hc
    rw [List.mem_range'_1] at hc
    omega
  · exact hn

/-! ## The two-cell floor -/

variable (avail : Nat) (t : TableState)

/-- The width of the table before it is scaled. -/
def naturalWidth : Nat := sumCols t.tableCols fun c => t.capped avail c + gap

/-- The room that is shared out. -/
def room : Nat := avail - t.tableCols * gap

/-- The proportional share of a column, rounded down. -/
def share (c : Nat) : Nat := t.capped avail c * t.room avail / sumCols t.tableCols (t.capped avail)

/-- **What the two-cell floor adds is no more than what rounding left**, where the table is
scaled. -/
def FloorFits : Prop :=
  avail < t.naturalWidth avail →
    sumCols t.tableCols (fun c => 2 - t.share avail c)
      ≤ t.room avail - sumCols t.tableCols (t.share avail)

instance : Decidable (FloorFits avail t) := inferInstanceAs (Decidable (_ → _))

/-- **The lines of the cells fit into `pixels` in cells of `width` pixels**, each line behind the
columns before it and their gaps. -/
def LinesFit (width pixels : Nat) : Prop :=
  ∀ row < t.tRows, ∀ ln < (t.fit avail).rowLines row, ∀ c < t.tableCols,
    fontAdvance * sumCols c (fun c => (t.fit avail).colW c + gap)
      + ((t.cell row c).slice ((t.fit avail).colW c) ln).cells 0
          ((t.cell row c).slice ((t.fit avail).colW c) ln).len * width ≤ pixels

/-- The natural width is that of the columns and the gaps. -/
theorem naturalWidth_eq :
    t.naturalWidth avail = sumCols t.tableCols (t.capped avail) + t.tableCols :=
  PageRenderer.sumCols_gap _ _

/-- A column is scaled to its share, or to the floor. -/
theorem sumCols_scaled :
    sumCols t.tableCols (fun c => scaled (t.room avail)
        (sumCols t.tableCols (t.capped avail)) (t.capped avail c))
      = sumCols t.tableCols (t.share avail)
        + sumCols t.tableCols (fun c => 2 - t.share avail c) := by
  rw [← sumCols_add]
  refine sumCols_congr fun c _ => ?_
  rw [scaled, share]
  omega

/-- Two cells a column. -/
theorem two_mul_le_sumCols_scaled (w : Nat → Nat) (n room sum : Nat) :
    2 * n ≤ sumCols n fun c => scaled room sum (w c) := by
  induction n with
  | zero => exact Nat.zero_le _
  | succ n ih =>
    rw [PageRenderer.sumCols_succ]
    have htwo : 2 ≤ scaled room sum (w n) := le_max_left _ _
    omega

/-- The remainder fills the room. -/
theorem sumCols_remainder (w : Nat → Nat) {n room : Nat} (hn : 0 < n) (hroom : room ≤ 255) :
    sumCols n (if sumCols n w < room then
        Function.update w (widest n w) ((w (widest n w) + (room - sumCols n w)) % 256)
      else w) = max room (sumCols n w) := by
  split
  next hless =>
    have hlast := widest_lt hn w
    have hwidest : w (widest n w) ≤ sumCols n w := PageRenderer.le_sumCols hlast
    rw [Nat.mod_eq_of_lt (by omega), sumCols_update_add _ _ hlast]
    omega
  next hmore => omega

/-- **The scaled columns fill the room** unless the floor has made them too wide for it. -/
theorem sumCols_scaleCols (havail : avail ≤ 255) (hn : 0 < t.tableCols) :
    sumCols t.tableCols (scaleCols t.tableCols avail (t.capped avail))
      = max (t.room avail) (sumCols t.tableCols (fun c => scaled (t.room avail)
          (sumCols t.tableCols (t.capped avail)) (t.capped avail c))) := by
  have hroom : t.room avail ≤ 255 := (Nat.sub_le _ _).trans havail
  obtain ⟨w', hw'⟩ : ∃ w' : Nat → Nat, w' = fun c => if c < t.tableCols then
      scaled (t.room avail) (sumCols t.tableCols (t.capped avail)) (t.capped avail c) % 256
    else t.capped avail c := ⟨_, rfl⟩
  -- no column reaches 256, so the 8-bit columns are the scaled ones
  have hcols : (sumCols t.tableCols fun c => scaled (t.room avail)
      (sumCols t.tableCols (t.capped avail)) (t.capped avail c)) = sumCols t.tableCols w' := by
    refine sumCols_congr fun c hc => ?_
    have hle : t.capped avail c ≤ sumCols t.tableCols (t.capped avail) :=
      PageRenderer.le_sumCols hc
    have hshare : t.capped avail c * t.room avail / sumCols t.tableCols (t.capped avail)
        ≤ t.room avail := Nat.div_le_of_le_mul (Nat.mul_le_mul_right _ hle)
    have hwide : scaled (t.room avail) (sumCols t.tableCols (t.capped avail)) (t.capped avail c)
        < 256 := by
      rw [scaled]
      omega
    simp only [hw', if_pos hc, Nat.mod_eq_of_lt hwide]
  have hdef : scaleCols t.tableCols avail (t.capped avail)
      = if sumCols t.tableCols w' < t.room avail then
          Function.update w' (widest t.tableCols w')
            ((w' (widest t.tableCols w') + (t.room avail - sumCols t.tableCols w')) % 256)
        else w' := by
    rw [← hcols, hw']
    rfl
  rw [hdef, hcols, sumCols_remainder w' hn hroom]

/-- **The fitted columns and their gaps fit the width exactly when the floor does.** -/
theorem sumCols_fit_le_iff (havail : avail ≤ 255) :
    sumCols t.tableCols (fun c => (t.fit avail).colW c + gap) ≤ avail ↔ FloorFits avail t := by
  have hshares : sumCols t.tableCols (t.share avail) ≤ t.room avail :=
    sumCols_share_le (t.capped avail) t.tableCols (t.room avail) _ (Nat.le_refl _)
  have hscaled := sumCols_scaled avail t
  have htwo := two_mul_le_sumCols_scaled (t.capped avail) t.tableCols (t.room avail)
    (sumCols t.tableCols (t.capped avail))
  have hroom : t.room avail = avail - t.tableCols := by rw [room, gap, Nat.mul_one]
  rw [PageRenderer.sumCols_gap, FloorFits, naturalWidth_eq]
  simp only [fit, PageRenderer.sumCols_gap]
  split
  next hscale =>
    obtain ⟨hwide, hsum⟩ := hscale
    -- a table that is scaled has a column
    have hn : 0 < t.tableCols := by
      rcases Nat.eq_zero_or_pos t.tableCols with hzero | hpos
      · exact absurd (by rw [hzero]; rfl) hsum
      · exact hpos
    rw [sumCols_scaleCols avail t havail hn]
    omega
  next hnatural =>
    rcases Nat.lt_or_ge avail (sumCols t.tableCols (t.capped avail) + t.tableCols)
      with hwide | hfits
    · -- only empty columns are left unscaled, and there are too many of them
      have hsum : sumCols t.tableCols (t.capped avail) = 0 := by
        by_contra hsum
        exact hnatural ⟨hwide, hsum⟩
      omega
    · exact ⟨fun _ hlt => absurd hlt (Nat.not_lt.mpr hfits), fun _ => hfits⟩

end TableState

/-! ## Slices within the panel -/

/-- A run that ends within the margin stays on its line. -/
theorem staysOnLine_of_le (p : Span) {l : Layout} {x : UInt16} (hx : l.leftEdge ≤ x.toNat)
    (hle : x.toNat + p.cells 0 p.len * l.advance ≤ right) :
    StaysOnLine p l.leftEdge l.advance x := by
  have hedge := l.leftEdge_bounds
  have hright : right = 398 := rfl
  have hwide : contentW = 396 := rfl
  have hmargin : marginX = 2 := rfl
  have hwords : ∀ w ∈ p.words, w = p.wordAt w.i := fun w hw => (p.eq_wordAt_of_mem_words hw).1
  rw [StaysOnLine]
  rw [cells, ← p.flatMap_words] at hle
  generalize p.words = ws at hle hwords ⊢
  induction ws generalizing x with
  | nil => trivial
  | cons w ws ih =>
    have hcells : (p.steps w.i w.w).length = (w.sp - w.i) + p.cells w.sp w.w := by
      rw [hwords w List.mem_cons_self]
      exact p.cells_wordAt w.i
    rw [List.flatMap_cons, List.length_append, hcells, Nat.add_mul, Nat.add_mul] at hle
    -- in front of the margin no width wraps, so the tests of `emit_run` see the true ones
    have hlead : (leadW l.advance w).toNat = (w.sp - w.i) * l.advance := by
      rw [leadW, UInt16.toNat_ofNat']
      omega
    have hword : (wordW p l.advance w).toNat = p.cells w.sp w.w * l.advance := by
      rw [wordW, UInt16.toNat_ofNat']
      omega
    have hafter : (penAfter p l.advance x w).toNat
        = x.toNat + (w.sp - w.i) * l.advance + p.cells w.sp w.w * l.advance := by
      rw [penAfter, UInt16.toNat_add, UInt16.toNat_add, hlead, hword]
      omega
    refine ⟨⟨?_, ?_⟩, ih ?_ ?_ fun v hv => hwords v (List.mem_cons_of_mem w hv)⟩
    · intro hlong
      rw [TooLong, hword] at hlong
      omega
    · intro hwrap
      rw [Wraps, hlead, hword] at hwrap
      omega
    · omega
    · omega

/-- The width of the cells of a slice: preformatted text is in the body face. -/
def sliceAdvance (l : Layout) : Nat := if l.literal then fontAdvance else l.advance

namespace PageRenderer

variable {o : Options} {r : PageRenderer}

/-- Every slice of the table ends within the margin. -/
def SlicesInside (r : PageRenderer) : Prop :=
  ∀ row < r.tRows, ∀ ln < r.rowLines row, ∀ c < r.tableCols,
    (columnX r.toLayout r.toTableState c).toNat
      + ((r.cell row c).slice (r.colW c) ln).cells 0 ((r.cell row c).slice (r.colW c) ln).len
        * sliceAdvance r.toLayout ≤ right

/-- **A fitted table fits the panel**: the columns and their gaps fit the width, no slice ends past
the margin, and emitting a slice, wherever the pen is, never begins a new line. -/
structure FitsPanel (o : Options) (r : PageRenderer) : Prop where
  /-- The width. -/
  sum_le : TableState.sumCols r.tableCols (fun c => r.colW c + gap) ≤ tableAvail r.toLayout
  /-- The margin. -/
  inside : SlicesInside r
  /-- The line. -/
  stays : ∀ row < r.tRows, ∀ ln < r.rowLines row, ∀ c < r.tableCols, ∀ s, OnlyPen r s →
    StaysAt s (s.emitSlice o row ln c)

/-- Where a column begins, as long as the columns fit the width: behind those before it. -/
theorem toNat_columnX (h : TableState.sumCols r.tableCols (fun c => r.colW c + gap)
    ≤ tableAvail r.toLayout) {c : Nat} (hc : c < r.tableCols) :
    (columnX r.toLayout r.toTableState c).toNat
      = r.leftEdge + fontAdvance * TableState.sumCols c (fun c => r.colW c + gap) ∧
      r.leftEdge + fontAdvance * TableState.sumCols c (fun c => r.colW c + gap)
        + r.colW c * fontAdvance ≤ right := by
  have hedge := r.leftEdge_bounds
  have hright : right = 398 := rfl
  have hsix : fontAdvance = 6 := rfl
  have hupto := sumCols_le (w := r.colW) (Nat.succ_le_of_lt hc)
  rw [sumCols_succ] at hupto
  rw [sumCols_gap] at h ⊢
  have havail : tableAvail r.toLayout ≤ (398 - r.leftEdge) / 6 := Nat.mod_le _ _
  -- the columns up to this one, with their gaps, in pixels
  have hsmall : 6 * (TableState.sumCols c r.colW + c + r.colW c + 1) ≤ 398 - r.leftEdge := by
    omega
  have hx : (columnX r.toLayout r.toTableState c).toNat
      = r.leftEdge + (6 * TableState.sumCols c r.colW + 6 * c) := by
    rw [columnX, UInt16.toNat_ofNat', sumCols_pixels, Nat.mod_eq_of_lt (by omega)]
  rw [hx, hsix]
  omega

/-- Columns that fit the width begin and end within the margins. -/
theorem columnX_add_le (h : TableState.sumCols r.tableCols (fun c => r.colW c + gap)
    ≤ tableAvail r.toLayout) {c : Nat} (hc : c < r.tableCols) :
    r.leftEdge ≤ (columnX r.toLayout r.toTableState c).toNat ∧
      (columnX r.toLayout r.toTableState c).toNat + r.colW c * fontAdvance ≤ right := by
  obtain ⟨hx, hle⟩ := toNat_columnX h hc
  rw [hx]
  exact ⟨Nat.le_add_right _ _, hle⟩

/-- Columns that fit the width hold their slices, in cells of the body face. -/
theorem slicesInside_of_le (h : TableState.sumCols r.tableCols (fun c => r.colW c + gap)
    ≤ tableAvail r.toLayout) (hface : sliceAdvance r.toLayout = fontAdvance) :
    SlicesInside r := by
  intro row _ ln _ c hc
  have hcells := cells_slice_le (r.cell row c) (r.colW c) ln
  have hcol := (columnX_add_le h hc).2
  rw [hface]
  exact (Nat.add_le_add_left (Nat.mul_le_mul_right _ hcells) _).trans hcol

/-- In other cells they hold them where the lines fit. -/
theorem slicesInside_fitTable_iff
    (h : TableState.sumCols r.fitTable.tableCols (fun c => r.fitTable.colW c + gap)
      ≤ tableAvail r.fitTable.toLayout) :
    SlicesInside r.fitTable ↔ TableState.LinesFit (tableAvail r.toLayout) r.toTableState
      (sliceAdvance r.toLayout) (right - r.leftEdge) := by
  have hedge := r.leftEdge_bounds
  have hright : right = 398 := rfl
  have hcolumn {c : Nat} (hc : c < r.tableCols) :
      (columnX r.fitTable.toLayout r.fitTable.toTableState c).toNat
        = r.leftEdge + fontAdvance * TableState.sumCols c (fun c =>
          (r.fit (tableAvail r.toLayout)).colW c + gap) := (toNat_columnX h hc).1
  constructor
  · intro hin row hrow ln hln c hc
    have hle := hin row hrow ln hln c hc
    rw [hcolumn hc] at hle
    exact Nat.le_sub_of_add_le' (by rwa [← Nat.add_assoc])
  · intro hfit row hrow ln hln c hc
    have hle := hfit row hrow ln hln c hc
    rw [hcolumn hc, Nat.add_assoc]
    exact Nat.add_le_of_le_sub' (by omega) hle

/-- **Slices that end within the margin never begin a new line.** -/
theorem staysAt_of_slicesInside (h : TableState.sumCols r.tableCols (fun c => r.colW c + gap)
    ≤ tableAvail r.toLayout) (hin : SlicesInside r) {row ln c : Nat} (hrow : row < r.tRows)
    (hln : ln < r.rowLines row) (hc : c < r.tableCols) {s : PageRenderer} (hpen : OnlyPen r s) :
    StaysAt s (s.emitSlice o row ln c) := by
  apply staysAt_emitSlice
  rw [sliceStays_iff hpen]
  by_cases hlit : r.literal = true
  · exact .inr (.inl hlit)
  · have hle := hin row hrow ln hln c hc
    rw [sliceAdvance, if_neg hlit] at hle
    exact .inr (.inr (staysOnLine_of_le _ (columnX_add_le h hc).1 hle))

/-- **A fitted table fits the panel exactly when the two-cell floor adds no more than what rounding
left**, in cells of the body face; in those of a heading its lines have to fit as well. -/
theorem fitsPanel_iff (o : Options) (r : PageRenderer) :
    FitsPanel o r.fitTable ↔ TableState.FloorFits (tableAvail r.toLayout) r.toTableState ∧
      (sliceAdvance r.toLayout = fontAdvance ∨ TableState.LinesFit (tableAvail r.toLayout)
        r.toTableState (sliceAdvance r.toLayout) (right - r.leftEdge)) := by
  have havail : tableAvail r.toLayout ≤ 255 := (tableAvail_le r.toLayout).trans (by decide)
  have hsum : TableState.sumCols r.fitTable.tableCols (fun c => r.fitTable.colW c + gap)
      ≤ tableAvail r.fitTable.toLayout ↔
        TableState.FloorFits (tableAvail r.toLayout) r.toTableState :=
    TableState.sumCols_fit_le_iff (tableAvail r.toLayout) r.toTableState havail
  constructor
  · intro h
    exact ⟨hsum.mp h.sum_le, .inr ((slicesInside_fitTable_iff h.sum_le).mp h.inside)⟩
  · rintro ⟨hfloor, hface⟩
    have hle := hsum.mpr hfloor
    have hin : SlicesInside r.fitTable := by
      rcases hface with hbody | hlines
      · exact slicesInside_of_le hle hbody
      · exact (slicesInside_fitTable_iff hle).mpr hlines
    refine ⟨hle, hin, fun row hrow ln hln c hc s hpen => ?_⟩
    exact staysAt_of_slicesInside hle hin hrow hln hc hpen

/-- Two long cells and four short ones: the columns take 28, 28 and four times two cells, with the
gaps 70 where there is room for 66. -/
theorem wide_table_overflows : ¬ FitsPanel { fonts := Display.blankFonts }
    (Runs.run (step { fonts := Display.blankFonts }) ((fresh fun _ => 0).begin 0)
      [.tableBegin {}, .tableRow (.ofList wideRow) {}]).fitTable := by
  intro h
  exact absurd h.sum_le (by decide +kernel)

end PageRenderer

end Thicket.Page
