import Thicket.Page.Table

/-! # The lines of a cell

A cell is broken into lines three times over: to count them, to walk to a line, and to draw it. The
three walks agree, and the lines leave out nothing but the spaces between them; but no more than 32
lines are counted. -/

namespace Thicket.Page

namespace Span

variable (p : Span) (w : Nat)

/-! ## One line -/

/-- A walk goes forward. -/
theorem le_walk (n e : Nat) : e ≤ p.walk n e := by
  induction n generalizing e with
  | zero => exact Nat.le_refl e
  | succ n ih =>
    rw [walk]
    split
    · exact (Nat.le_add_right _ _).trans (ih _)
    · exact Nat.le_refl e

/-- Behind the text there is nothing to walk over. -/
theorem walk_of_le {n e : Nat} (h : p.len ≤ e) : p.walk n e = e := by
  cases n with
  | zero => rfl
  | succ n => rw [walk, if_neg (Nat.not_lt.mpr h)]

/-- A line begins before it ends. -/
theorem le_breakLine (start : Nat) : start ≤ p.breakLine w start := by
  have hwalk := p.le_walk w start
  simp only [breakLine]
  split
  · split
    next hbrk => exact Nat.le_of_lt hbrk.1
    next => exact hwalk
  · exact hwalk

/-- **A line of a column that has a cell takes a byte.** -/
theorem lt_breakLine {w : Nat} (hw : 1 ≤ w) {start : Nat} (h : start < p.len) :
    start < p.breakLine w start := by
  obtain ⟨n, rfl⟩ : ∃ n, w = n + 1 := ⟨w - 1, by omega⟩
  have hwalk : start < p.walk (n + 1) start := by
    rw [walk, if_pos h]
    have hpos := p.seqLenAt_pos start
    have hle := p.le_walk n (start + p.seqLenAt start)
    omega
  simp only [breakLine]
  split
  · split
    next hbrk => exact hbrk.1
    next => exact hwalk
  · exact hwalk

/-- Behind the text there is no line. -/
theorem breakLine_of_le {start : Nat} (h : p.len ≤ start) : p.breakLine w start = start := by
  simp only [breakLine, p.walk_of_le h]
  exact if_neg fun hc => absurd hc.1 (Nat.not_lt.mpr h)

/-- The next line begins behind this one. -/
theorem breakLine_le_nextLine (start : Nat) : p.breakLine w start ≤ p.nextLine w start := le_scan _

/-- Behind the text the walk stands still. -/
theorem nextLine_of_le {start : Nat} (h : p.len ≤ start) : p.nextLine w start = start := by
  rw [nextLine, breakLine_of_le p w h, scan_eq (fun _ => Nat.one_pos),
    if_neg fun hc => absurd hc.1 (Nat.not_lt.mpr h)]

/-- A line begins behind the one before it. -/
theorem le_nextLine (start : Nat) : start ≤ p.nextLine w start :=
  (p.le_breakLine w start).trans (p.breakLine_le_nextLine w start)

/-! ## The walk to a line -/

/-- **One line further from the front**: the early stop of the walk changes nothing. -/
theorem lineStart_succ (k start : Nat) :
    p.lineStart w (k + 1) start = p.lineStart w k (p.nextLine w start) := by
  rw [lineStart]
  split
  next hend =>
    -- behind the text every further line begins where this one does
    cases k with
    | zero => rfl
    | succ k => rw [lineStart, p.nextLine_of_le w hend, if_pos hend]
  next => rfl

/-- One line further from the back. -/
theorem lineStart_succ_back (k start : Nat) :
    p.lineStart w (k + 1) start = p.nextLine w (p.lineStart w k start) := by
  induction k generalizing start with
  | zero => rw [lineStart_succ]; rfl
  | succ k ih => rw [lineStart_succ, ih, lineStart_succ p w k]

/-- Later lines begin further on. -/
theorem lineStart_mono {i j : Nat} (h : i ≤ j) (start : Nat) :
    p.lineStart w i start ≤ p.lineStart w j start := by
  induction h with
  | refl => exact Nat.le_refl _
  | step _ ih =>
    rw [lineStart_succ_back]
    exact ih.trans (p.le_nextLine w _)

/-- Every line takes a byte while there is one. -/
theorem le_lineStart {w : Nat} (hw : 1 ≤ w) (k : Nat) : min k p.len ≤ p.lineStart w k 0 := by
  induction k with
  | zero => exact Nat.min_le_left 0 p.len
  | succ k ih =>
    rw [lineStart_succ_back]
    -- behind the text the walk stands still, in it a line takes a byte at least
    by_cases hend : p.len ≤ p.lineStart w k 0
    · exact (Nat.min_le_right _ _).trans (hend.trans (p.le_nextLine w _))
    · have hlt := p.lt_breakLine hw (Nat.not_le.mp hend)
      have hnext := p.breakLine_le_nextLine w (p.lineStart w k 0)
      omega

/-- Where a line ends. -/
def lineEnd (ln : Nat) : Nat := p.breakLine w (p.lineStart w ln 0)

/-! ## Counting lines -/

/-- **The count agrees with the walk**: up to its bound it is the first line that begins behind the
text. -/
theorem linesFrom_le_iff (fuel n start : Nat) :
    p.linesFrom w fuel start ≤ n ↔ fuel ≤ n ∨ p.len ≤ p.lineStart w n start := by
  induction fuel generalizing n start with
  | zero => exact ⟨fun _ => .inl (Nat.zero_le n), fun _ => Nat.zero_le n⟩
  | succ fuel ih =>
    rw [linesFrom]
    split
    next hlt =>
      cases n with
      | zero =>
        constructor
        · intro hle
          exact absurd hle (Nat.not_succ_le_zero _)
        · rintro (hfuel | hend)
          · exact absurd hfuel (Nat.not_succ_le_zero _)
          · exact absurd hlt (Nat.not_lt.mpr hend)
      -- one line less to count, and one line less to walk
      | succ n => rw [Nat.succ_le_succ_iff, Nat.succ_le_succ_iff, ih, lineStart_succ]
    next hend =>
      constructor
      · intro _
        exact .inr ((Nat.not_lt.mp hend).trans (p.lineStart_mono w (Nat.zero_le n) start))
      · intro _
        exact Nat.zero_le n

/-- The lines a cell needs: no more than it has bytes. -/
def linesNeeded : Nat := p.linesFrom w p.len 0

/-- **A cell needs at most so many lines** when the walk over them leaves nothing. -/
theorem linesNeeded_le_iff {w : Nat} (hw : 1 ≤ w) (n : Nat) :
    p.linesNeeded w ≤ n ↔ p.len ≤ p.lineStart w n 0 := by
  rw [linesNeeded, linesFrom_le_iff]
  constructor
  · rintro (hshort | hend)
    · exact (Nat.le_min.mpr ⟨hshort, Nat.le_refl _⟩).trans (p.le_lineStart hw n)
    · exact hend
  · exact .inr

end Span

/-! ## Nothing is clipped -/

/-- **A cell is on so many lines as a whole**: they come one after the other, between two of them
there are only spaces, and every byte that is not a space is on one. -/
structure Unclipped (p : Span) (w lines : Nat) : Prop where
  /-- The first slice begins with the cell. -/
  first : p.lineStart w 0 0 = 0
  /-- A slice ends before the next one begins. -/
  inOrder : ∀ ln, p.lineStart w ln 0 ≤ p.lineEnd w ln ∧ p.lineEnd w ln ≤ p.lineStart w (ln + 1) 0
  /-- Between two slices there are only spaces. -/
  between : ∀ ln k, p.lineEnd w ln ≤ k → k < p.lineStart w (ln + 1) 0 → p.byte k = 0x20
  /-- Every other byte is in a slice. -/
  covered : ∀ k < p.len, p.byte k ≠ 0x20 →
    ∃ ln < lines, p.lineStart w ln 0 ≤ k ∧ k < p.lineEnd w ln

/-- Between two slices there are only spaces, however many lines are drawn. -/
theorem byte_between (p : Span) {w ln k : Nat} (hk : p.lineEnd w ln ≤ k)
    (hlt : k < p.lineStart w (ln + 1) 0) : p.byte k = 0x20 := by
  rw [Span.lineStart_succ_back] at hlt
  have hspace : (p.byte k == 0x20) = true := of_lt_scan_one (p := fun k => p.byte k == 0x20) hk hlt
  exact beq_iff_eq.mp hspace

/-- Where a line begins within the text, there is no space. -/
theorem byte_lineStart (p : Span) {w ln : Nat} (h : p.lineStart w (ln + 1) 0 < p.len) :
    p.byte (p.lineStart w (ln + 1) 0) ≠ 0x20 := by
  rw [Span.lineStart_succ_back] at h ⊢
  intro hspace
  exact not_of_scan_one_lt (p := fun k => p.byte k == 0x20) h (beq_iff_eq.mpr hspace)

/-- **A cell is drawn whole exactly when the walk over the lines leaves nothing.** -/
theorem unclipped_iff (p : Span) (w : Nat) {lines : Nat} (hlines : 1 ≤ lines) :
    Unclipped p w lines ↔ p.len ≤ p.lineStart w lines 0 := by
  constructor
  · intro h
    by_contra hmore
    obtain ⟨n, rfl⟩ : ∃ n, lines = n + 1 := ⟨lines - 1, by omega⟩
    -- the byte the walk has come to is not a space, and lies behind every slice drawn
    obtain ⟨ln, hln, -, hlt⟩ := h.covered _ (Nat.not_le.mp hmore) (byte_lineStart p (by omega))
    have hend := (h.inOrder ln).2
    have hmono := p.lineStart_mono w (show ln + 1 ≤ n + 1 by omega) 0
    omega
  · intro hend
    refine ⟨rfl, fun ln => ⟨p.le_breakLine w _, ?_⟩, fun ln k => byte_between p, ?_⟩
    · rw [Span.lineStart_succ_back]
      exact p.breakLine_le_nextLine w _
    · intro k hk hbyte
      -- the last line that begins at or before the byte
      have hlast : ∀ n, k < p.lineStart w n 0 →
          ∃ ln < n, p.lineStart w ln 0 ≤ k ∧ k < p.lineStart w (ln + 1) 0 := by
        intro n hn
        induction n with
        | zero => exact absurd hn (Nat.not_lt_zero k)
        | succ n ih =>
          rcases Nat.lt_or_ge k (p.lineStart w n 0) with hbefore | hat
          · obtain ⟨ln, hln, hbounds⟩ := ih hbefore
            exact ⟨ln, Nat.lt_succ_of_lt hln, hbounds⟩
          · exact ⟨n, Nat.lt_succ_self n, hat, hn⟩
      obtain ⟨ln, hln, hstart, hnext⟩ := hlast lines (hk.trans_le hend)
      refine ⟨ln, hln, hstart, ?_⟩
      -- behind the end of its line there are only spaces
      by_contra hgap
      exact hbyte (byte_between p (Nat.not_lt.mp hgap) hnext)

namespace TableState

/-! ## The height of a row -/

/-- The lines that a cell asks for. -/
def cellLines (t : TableState) (row c : Nat) : Nat :=
  if t.cellLen row c = 0 ∨ t.colW c = 0 then 0 else (t.cell row c).linesFrom (t.colW c) 32 0

/-- A row is as high as its tallest cell, and has a line. -/
theorem rowLines_le_iff (t : TableState) (row n : Nat) :
    t.rowLines row ≤ n ↔ 1 ≤ n ∧ ∀ c < t.tableCols, t.cellLines row c ≤ n := by
  -- over any columns, from any height so far
  have hfold : ∀ (cs : List Nat) (m : Nat), cs.foldl (fun lines c =>
      if t.cellLen row c = 0 ∨ t.colW c = 0 then lines
      else max lines ((t.cell row c).linesFrom (t.colW c) 32 0)) m ≤ n ↔
        m ≤ n ∧ ∀ c ∈ cs, t.cellLines row c ≤ n := by
    intro cs
    induction cs with
    | nil => simp
    | cons c cs ih =>
      intro m
      rw [List.foldl_cons, ih, List.forall_mem_cons, ← and_assoc]
      refine and_congr_left fun _ => ?_
      rw [cellLines]
      split
      · exact ⟨fun h => ⟨h, Nat.zero_le n⟩, And.left⟩
      · exact max_le_iff
  rw [rowLines, hfold]
  simp only [List.mem_range]

/-- A row has a line, is as high as each cell asks, and at most 32 lines high. -/
theorem rowLines_bounds (t : TableState) (row : Nat) :
    1 ≤ t.rowLines row ∧ t.rowLines row ≤ 32 ∧
      ∀ c < t.tableCols, t.cellLines row c ≤ t.rowLines row := by
  have hself := (t.rowLines_le_iff row (t.rowLines row)).mp (Nat.le_refl _)
  refine ⟨hself.1, (t.rowLines_le_iff row 32).mpr ⟨by decide, fun c _ => ?_⟩, hself.2⟩
  rw [cellLines]
  split
  · exact Nat.zero_le 32
  · exact ((t.cell row c).linesFrom_le_iff _ 32 32 0).mpr (.inl (Nat.le_refl 32))

end TableState

/-- **A cell is on the lines of its row exactly when it needs at most 32 lines.** -/
theorem unclipped_rowLines_iff (t : TableState) (row : Nat) {c : Nat} (hc : c < t.tableCols)
    (hw : 1 ≤ t.colW c) : Unclipped (t.cell row c) (t.colW c) (t.rowLines row) ↔
      (t.cell row c).linesNeeded (t.colW c) ≤ 32 := by
  obtain ⟨hone, hcap, htall⟩ := t.rowLines_bounds row
  rw [unclipped_iff _ _ hone, Span.linesNeeded_le_iff _ hw]
  constructor
  · intro hend
    exact hend.trans ((t.cell row c).lineStart_mono _ hcap 0)
  · intro hend
    -- the count of this cell, short of its bound, is the first line behind the text
    have hcell := htall c hc
    rw [TableState.cellLines] at hcell
    split at hcell
    next hnone =>
      rcases hnone with hlen | hcol
      · exact hlen.le.trans (Nat.zero_le _)
      · exact absurd hcol (by omega)
    next =>
      rcases ((t.cell row c).linesFrom_le_iff _ 32 _ 0).mp hcell with hfull | hdone
      · exact hend.trans ((t.cell row c).lineStart_mono _ hfull 0)
      · exact hdone

end Thicket.Page
