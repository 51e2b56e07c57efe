import Thicket.Page.Placed

/-! # Alignment

The offset of an aligned run is computed in the face that the row has before the run, from a width
in 16 bits; then the heading ladder may give the row another face. The run is where it should be
exactly when the width that was measured and the width that is drawn leave the same slack. -/

namespace Thicket.Page

open Thicket.Lcd Thicket.Page.Span PageRenderer

/-! ## Where a run should be -/

/-- What is left of the line on the left of an aligned run: half of the slack, rounded down, or all
of it; nothing where the run does not fit. -/
def slackLeft (align : Align) (avail w : Nat) : Nat :=
  if align = .center then (avail - w) / 2 else avail - w

/-- **Alignment is exact or dropped**: what `onText` emits with the pen `q`. A run that fits is on
one row, centred or flush right; any other begins at the left edge. -/
structure AlignedOrDropped (o : Options) (t : Span) (align : Align) (r q : PageRenderer) :
    Prop where
  /-- A run that fits, in the face it is drawn in, begins behind its slack. -/
  centered : t.cells 0 t.len * q.advance ≤ right - q.leftEdge → align = .center →
    q.guardIndent.x.toNat
      = q.leftEdge + (right - q.leftEdge - t.cells 0 t.len * q.advance) / 2
  /-- Or so that it ends at the right margin. -/
  flush : t.cells 0 t.len * q.advance ≤ right - q.leftEdge → align = .right →
    q.guardIndent.x.toNat + t.cells 0 t.len * q.advance = right
  /-- Its cells follow one another from there, on the row it opens. -/
  one_row : t.cells 0 t.len * q.advance ≤ right - q.leftEdge →
    q.placedCells o t q.invert
      = printed t (rowCells r.y (UInt16.ofNat q.advance) q.guardIndent.x (t.steps 0 t.len))
  /-- A run that does not fit begins at the left edge. -/
  dropped : right - q.leftEdge < t.cells 0 t.len * q.advance → q.guardIndent.x.toNat = q.leftEdge
  /-- These cells are what is drawn, where their rows are visible. -/
  drawn : glyphsOf (newOps q (q.emitHere o t))
    = ((q.placedCells o t q.invert).filter fun c => q.shows c.row).map (q.drawCell o t q.invert)

/-! ## The pen of an aligned run -/

variable {o : Options} {t : Span} {st : Style} {r : PageRenderer}

/-- The width of a run as `onText` measures it: 16 bits, in the face of the row before. -/
def measuredW (t : Span) (l : Layout) : Nat := (UInt16.ofNat (t.cells 0 t.len * l.advance)).toNat

/-- The width that is measured wraps. -/
theorem measuredW_eq (t : Span) (l : Layout) :
    measuredW t l = t.cells 0 t.len * l.advance % 65536 := rfl

/-- The advance of a face. -/
def faceAdvance : Head → Nat
  | .none => fontAdvance
  | .h1 => bigFontW
  | .h2 => boldW .h2
  | .h3 => boldW .h3

/-- Inline bold is as wide as the body face. -/
theorem advance_eq_faceAdvance (l : Layout) : l.advance = faceAdvance l.head := by
  rw [Layout.advance]
  cases l.head with
  | none =>
    dsimp only
    split <;> rfl
  | h1 => rfl
  | h2 => rfl
  | h3 => rfl

/-- The advance of the face that a run is drawn in: a heading whose codepoints are carried takes the
face of its depth. -/
def drawnAdvance (o : Options) (t : Span) (st : Style) (l : Layout) : Nat :=
  faceAdvance (if Climbs o t st l then wantedHead st.depth else l.head)

/-- The left edge of a run. -/
def runEdge (st : Style) : Nat := Layout.leftEdge { depth := st.depth }

/-- The depth of a run is what sets its left edge. -/
theorem openText_leftEdge (r : PageRenderer) : (r.openText o t st).leftEdge = runEdge st := rfl

/-- **The face that a run is drawn in.** -/
theorem openText_advance (r : PageRenderer) :
    (r.openText o t st).advance = drawnAdvance o t st r.toLayout := by
  rw [advance_eq_faceAdvance]
  rfl

/-- **The pen of an aligned run**: behind the slack of the width that was measured. -/
theorem openText_pen (halign : st.align ≠ .left) (hopen : r.rowOpen = false) :
    (r.openText o t st).x.toNat
      = runEdge st + slackLeft st.align (right - runEdge st) (measuredW t r.toLayout) := by
  have hbounds : 2 ≤ runEdge st ∧ runEdge st ≤ 50 := Layout.leftEdge_bounds _
  have hright : right = 398 := rfl
  have hx : (r.openText o t st).x
      = alignedX t st.align ((r.startText st).freshRow).toLayout := rfl
  have hrow : ((r.startText st).freshRow).rowOpen = false := hopen
  have hedge : ((r.startText st).freshRow).leftEdge = runEdge st := rfl
  -- a run that is aligned begins at the edge of its own section
  have hpen : ((r.startText st).freshRow).x = UInt16.ofNat (runEdge st) := by
    show (if r.rowOpen then r.x else UInt16.ofNat (runEdge st)) = _
    rw [hopen]
    rfl
  have hmeasured : (UInt16.ofNat (t.cells 0 t.len * ((r.startText st).freshRow).advance)).toNat
      = measuredW t r.toLayout := rfl
  rw [hx, alignedX, hedge, hpen, hmeasured, slackLeft]
  by_cases hw : measuredW t r.toLayout ≤ right - runEdge st
  · rw [if_pos ⟨hrow, halign, hw⟩, UInt16.toNat_ofNat']
    split <;> omega
  · rw [if_neg fun h => hw h.2.2, UInt16.toNat_ofNat']
    split <;> omega

/-! ## Exactness -/

/-- **The guard of `emit_run` leaves an aligned pen alone.** -/
theorem openText_guard (halign : st.align ≠ .left) (hopen : r.rowOpen = false) :
    (r.openText o t st).guardIndent = r.openText o t st := by
  have hpen := openText_pen (o := o) (t := t) halign hopen
  rw [guardIndent, if_neg]
  rintro ⟨-, hlt⟩
  rw [openText_leftEdge, hpen] at hlt
  exact Nat.not_lt.mpr (Nat.le_add_right _ _) hlt

/-- **The two widths leave the same slack**: the one measured in 16 bits in the face of the row, and
the one drawn. -/
def SameSlack (o : Options) (t : Span) (st : Style) (l : Layout) : Prop :=
  slackLeft st.align (right - runEdge st) (t.cells 0 t.len * l.advance % 65536)
    = slackLeft st.align (right - runEdge st) (t.cells 0 t.len * drawnAdvance o t st l)

instance (o : Options) (t : Span) (st : Style) (l : Layout) : Decidable (SameSlack o t st l) :=
  inferInstanceAs (Decidable (_ = _))

/-- The three places of an aligned run as one: behind its slack. -/
theorem pen_iff {align : Align} (halign : align ≠ .left) {e w x : Nat} (hedge : e ≤ right) :
    ((w ≤ right - e → align = .center → x = e + (right - e - w) / 2) ∧
        (w ≤ right - e → align = .right → x + w = right) ∧ (right - e < w → x = e)) ↔
      x = e + slackLeft align (right - e) w := by
  cases align with
  | left => exact absurd rfl halign
  | center =>
    rw [slackLeft, if_pos rfl]
    simp only [reduceCtorEq, forall_const, false_imp_iff, implies_true, true_and]
    omega
  | right =>
    rw [slackLeft, if_neg (by decide)]
    simp only [reduceCtorEq, forall_const, false_imp_iff, implies_true, true_and]
    omega

/-- **A run with room for it is on one row.** -/
theorem placedCells_of_room {q : PageRenderer} (hedge : q.leftEdge ≤ q.guardIndent.x.toNat)
    (hle : q.guardIndent.x.toNat + t.cells 0 t.len * q.advance ≤ right) :
    q.placedCells o t q.invert
      = printed t (rowCells q.y (UInt16.ofNat q.advance) q.guardIndent.x (t.steps 0 t.len)) := by
  rw [cells, ← t.flatMap_words] at hle
  have hcells : Runs.outputs (emitWord o t q.invert) (placeWord o t q.invert) q.guardIndent
      t.words = _ :=
    placedWords_of_room (fun w hw => (t.eq_wordAt_of_mem_words hw).1) q.guardIndent hedge hle
  rw [placedCells, hcells, t.flatMap_words]
  rfl

/-- **Alignment is exact or dropped iff the widths leave the same slack.** -/
theorem aligned_iff_sameSlack (o : Options) (t : Span) (st : Style) (r : PageRenderer)
    (hlit : st.literal = false) (halign : st.align ≠ .left) (hopen : r.rowOpen = false) :
    AlignedOrDropped o t st.align r (r.openText o t st) ↔ SameSlack o t st r.toLayout := by
  have hbounds : 2 ≤ runEdge st ∧ runEdge st ≤ 50 := Layout.leftEdge_bounds _
  have hright : right = 398 := rfl
  have hedge : (r.openText o t st).leftEdge = runEdge st := openText_leftEdge r
  have hadv : (r.openText o t st).advance = drawnAdvance o t st r.toLayout := openText_advance r
  have hguard := openText_guard (o := o) (t := t) halign hopen
  have hpen := openText_pen (o := o) (t := t) halign hopen
  rw [measuredW_eq] at hpen
  have hplace := pen_iff halign (e := runEdge st)
    (w := t.cells 0 t.len * drawnAdvance o t st r.toLayout) (x := (r.openText o t st).x.toNat)
    (by omega)
  rw [SameSlack]
  constructor
  · intro h
    have hwhere := h.centered
    have hflush := h.flush
    have hdropped := h.dropped
    rw [hguard, hedge, hadv] at hwhere hflush hdropped
    have hat := hplace.mp ⟨hwhere, hflush, hdropped⟩
    omega
  · intro hslack
    rw [hslack] at hpen
    obtain ⟨hcenter, hflush, hdropped⟩ := hplace.mpr hpen
    rw [← hadv, ← hedge] at hcenter hflush hdropped hpen
    refine ⟨?_, ?_, fun hfit => ?_, ?_, glyphs_emitRun hlit⟩
    · rw [hguard]
      exact hcenter
    · rw [hguard]
      exact hflush
    · -- the slack on the left leaves room for the run
      have hroom : slackLeft st.align (right - (r.openText o t st).leftEdge)
          (t.cells 0 t.len * (r.openText o t st).advance) + t.cells 0 t.len *
            (r.openText o t st).advance ≤ right - (r.openText o t st).leftEdge := by
        rw [slackLeft]
        split <;> omega
      refine placedCells_of_room ?_ ?_
      · rw [hguard, hpen]
        exact Nat.le_add_right _ _
      · rw [hguard, hpen]
        omega
    · rw [hguard]
      exact hdropped

/-- Two letters in the middle of a body row. -/
theorem letters_centered : AlignedOrDropped { fonts := Display.blankFonts } (.ofList [0x41, 0x42])
    .center (fresh fun _ => 0) ((fresh fun _ => 0).openText { fonts := Display.blankFonts }
      (.ofList [0x41, 0x42]) { align := .center }) :=
  (aligned_iff_sameSlack _ _ { align := .center } _ rfl (by decide) rfl).mpr (by decide)

/-! ## When the widths agree -/

/-- A run narrower than 16 bits that keeps the face of its row is measured as it is drawn. -/
theorem sameSlack_of_face {l : Layout} (hface : drawnAdvance o t st l = l.advance)
    (hw : t.cells 0 t.len * l.advance < 65536) : SameSlack o t st l := by
  rw [SameSlack, hface, Nat.mod_eq_of_lt hw]

/-- **A heading that climbs from a body row is misplaced** unless it fills the line in the body
face: its face is wider than the one it was measured in. -/
theorem sameSlack_iff_of_climbs {l : Layout} (hclimb : Climbs o t st l) (hbody : l.head = .none)
    (hw : t.cells 0 t.len * 6 < 65536) :
    SameSlack o t st l ↔ right - runEdge st ≤ t.cells 0 t.len * 6 := by
  have hright : right = 398 := rfl
  have hedge : runEdge st = 2 + min st.depth.toNat 4 * 12 := rfl
  have hmeasured : l.advance = 6 := by
    rw [advance_eq_faceAdvance, hbody]
    rfl
  have hne : 0 < t.cells 0 t.len := by
    have hsteps : t.steps 0 t.len = 0 :: t.steps (0 + t.seqLenAt 0) t.len :=
      (positions_eq t.seqLenAt_pos 0).trans (if_pos hclimb.2.2.2.1)
    rw [cells, hsteps]
    exact Nat.succ_pos _
  -- every heading is wider than the body
  have hdrawn : 7 ≤ drawnAdvance o t st l := by
    rw [drawnAdvance, if_pos hclimb]
    cases hwant : wantedHead st.depth with
    | none => exact absurd hwant (wantedHead_ne st.depth)
    | h1 => decide
    | h2 => decide
    | h3 => decide
  have hwider : t.cells 0 t.len * 7 ≤ t.cells 0 t.len * drawnAdvance o t st l :=
    Nat.mul_le_mul_left _ hdrawn
  rw [SameSlack, hmeasured, Nat.mod_eq_of_lt hw, slackLeft, slackLeft]
  split <;> omega

/-! ## A heading in the wrong place -/

/-- Two letters as a heading in the middle of the line. -/
def centeredHeading : Style := { headingStyle with align := .center }

/-- **Two letters of a heading are measured with 6 pixels each and drawn with 12**: they begin at
200 where the middle of the line is at 194. -/
theorem heading_off_center : ¬ AlignedOrDropped { fonts := arrowFonts } (.ofList [0x41, 0x42])
    .center (fresh fun _ => 0)
    ((fresh fun _ => 0).openText { fonts := arrowFonts } (.ofList [0x41, 0x42])
      centeredHeading) := by
  intro h
  have hpen := h.centered (by decide) rfl
  revert hpen
  decide

end Thicket.Page
