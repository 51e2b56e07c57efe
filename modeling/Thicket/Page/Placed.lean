import Thicket.Page.Ladder
import Thicket.Page.LinkBoxes

/-! # The cells of a run of prose

`emit_run` lays out one codepoint after another and draws those whose row is visible. The trace
keeps them all, in order, with the row and the pen of each; what is drawn can be read off it. -/

namespace Thicket.Page

open Thicket.Lcd Thicket.Page.Span

/-- A codepoint of a run that has been laid out. -/
structure PlacedCell where
  /-- Where it begins in the run. -/
  k : Nat
  /-- `_y`: its row, in page coordinates. -/
  row : UInt16
  /-- `_x`: its pen. -/
  x : UInt16
  deriving DecidableEq

/-- Cells one behind the other on a row. -/
def rowCells (row adv : UInt16) : UInt16 → List Nat → List PlacedCell
  | _, [] => []
  | x, k :: ks => ⟨k, row, x⟩ :: rowCells row adv (x + adv) ks

namespace PageRenderer

variable (o : Options) (t : Span) (invert : Bool)

/-! ## The trace -/

/-- The cell that is laid out next. -/
def place (r : PageRenderer) (k : Nat) : List PlacedCell := [⟨k, r.y, r.x⟩]

/-- A cell of a word that is broken at the margin. -/
def placeBroken (r : PageRenderer) (k : Nat) : List PlacedCell :=
  (r.wrapIfNeeded o r.advance).place k

/-- A word: the spaces in front of it are cells only where it is broken. -/
def placeWord (r : PageRenderer) (w : Word) : List PlacedCell :=
  if TooLong t r.leftEdge r.advance w then
    Runs.outputs (emitBrokenCell o t invert) (placeBroken o) r (t.steps w.i w.w)
  else Runs.outputs (emitCell o t invert) place (r.breakOrLead o t invert w) (t.steps w.sp w.w)

/-- **The cells of `emit_run`**, in the order they are laid out. -/
def placedCells (r : PageRenderer) : List PlacedCell :=
  Runs.outputs (emitWord o t invert) (placeWord o t invert) r.guardIndent t.words

/-! ## What is drawn of it -/

/-- `row_visible` of a row. -/
def shows (r : PageRenderer) (row : UInt16) : Bool :=
  !r.clip || (r.scroll ≤ row && row.toNat < r.scroll.toNat + lcdHeight)

/-- The call that draws a cell. -/
def drawCell (r : PageRenderer) (c : PlacedCell) : LcdOp :=
  r.glyphOp o c.x (c.row - r.scroll) (t.glyph c.k) (codepointOf (t.glyph c.k)) (!invert)

/-- The glyphs among calls on the driver. -/
def glyphsOf (ops : List LcdOp) : List LcdOp := ops.filter fun op => (glyphIn op).isSome

/-- Glyphs of one list after another. -/
theorem glyphsOf_append (ops ops' : List LcdOp) :
    glyphsOf (ops ++ ops') = glyphsOf ops ++ glyphsOf ops' :=
  List.filter_append ..

/-- **Cells have been laid out** between two states: the glyphs drawn are those of the cells whose
row is visible. -/
structure Places (r s : PageRenderer) (cs : List PlacedCell) : Prop where
  /-- Only the pen moved. -/
  pen : OnlyPen r s
  /-- The glyphs. -/
  glyphs : ∃ m, s.log = r.log ++ m ∧ glyphsOf (issued m)
    = (cs.filter fun c => r.shows c.row).map (r.drawCell o t invert)

variable {o t invert} {r s u : PageRenderer} {cs ds : List PlacedCell}

/-- Which rows are visible stays. -/
theorem shows_of_onlyPen (h : OnlyPen r s) : s.shows = r.shows := by
  funext row
  rw [shows, shows, h.window_eq.1, h.window_eq.2]

/-- How a cell is drawn stays. -/
theorem drawCell_of_onlyPen (h : OnlyPen r s) :
    s.drawCell o t invert = r.drawCell o t invert := by
  funext c
  rw [drawCell, drawCell, h.window_eq.2, h.layout_eq]
  rfl

/-- Nothing is laid out where no glyph is drawn. -/
theorem Places.of_adds (h : OnlyPen r s) (hadds : Adds (fun op => glyphIn op = none) r s) :
    Places o t invert r s [] := by
  obtain ⟨m, hm, hnone⟩ := hadds
  refine ⟨h, m, hm, List.filter_eq_nil_iff.mpr fun op hop => ?_⟩
  obtain ⟨e, he, hop⟩ := List.mem_filterMap.mp hop
  cases e with
  | down _ => cases hop
  | draw y op' =>
    obtain rfl : op' = op := Option.some.inj hop
    simp [hnone y op' he]

/-- Nothing done. -/
theorem Places.refl (r : PageRenderer) : Places o t invert r r [] :=
  .of_adds (.refl r) (.refl r)

/-- One piece after another. -/
theorem Places.trans (h : Places o t invert r s cs) (k : Places o t invert s u ds) :
    Places o t invert r u (cs ++ ds) := by
  obtain ⟨m, hm, hcs⟩ := h.glyphs
  obtain ⟨m', hm', hds⟩ := k.glyphs
  rw [shows_of_onlyPen h.pen, drawCell_of_onlyPen h.pen] at hds
  refine ⟨h.pen.trans k.pen, m ++ m', by rw [hm', hm, List.append_assoc], ?_⟩
  rw [issued_append, glyphsOf_append, hcs, hds, List.filter_append, List.map_append]

/-- Steps that lay out their cells, one after the other. -/
theorem Places.run {ι : Type} {step : PageRenderer → ι → PageRenderer}
    {out : PageRenderer → ι → List PlacedCell} {ks : List ι}
    (h : ∀ r, ∀ k ∈ ks, Places o t invert r (step r k) (out r k)) (r : PageRenderer) :
    Places o t invert r (Runs.run step r ks) (Runs.outputs step out r ks) := by
  induction ks generalizing r with
  | nil => exact .refl r
  | cons k ks ih =>
    exact (h r k List.mem_cons_self).trans
      (ih (fun r j hj => h r j (List.mem_cons_of_mem k hj)) (step r k))

/-- A codepoint drawn by a call for its glyph, and others that draw none. -/
theorem places_emitGlyph {d : List UInt8 → Drawing} (r : PageRenderer) {k : Nat}
    (hd : glyphsOf (d (t.glyph k) r.toLayout r.screenY) = [r.drawCell o t invert ⟨k, r.y, r.x⟩]) :
    Places o t invert r (r.emitGlyph o t d k) (r.place k) := by
  refine ⟨onlyPen_emitGlyph t d r k, ?_⟩
  have hshows : r.shows r.y = r.rowVisible := rfl
  have hlog : (r.emitGlyph o t d k).log = ((r.noteUnless (r.faceHas o (codepointOf (t.glyph k)))
      (codepointOf (t.glyph k))).paint (d (t.glyph k))).log := rfl
  rw [hlog, place, List.filter_singleton, hshows]
  by_cases hv : r.rowVisible = true
  · have hpaint : (r.noteUnless (r.faceHas o (codepointOf (t.glyph k)))
        (codepointOf (t.glyph k))).rowVisible = true := hv
    rw [paint, if_pos hpaint, hv]
    exact ⟨_, rfl, by rw [issued_draws]; exact hd⟩
  · have hpaint : ¬ (r.noteUnless (r.faceHas o (codepointOf (t.glyph k)))
        (codepointOf (t.glyph k))).rowVisible = true := hv
    rw [paint, if_neg hpaint, Bool.not_eq_true _ |>.mp hv]
    exact ⟨[], (List.append_nil _).symm, rfl⟩

/-- A background is no glyph, nor is a rule. -/
theorem glyphsOf_eq_nil {ops : List LcdOp} (h : ∀ op ∈ ops, glyphIn op = none) :
    glyphsOf ops = [] :=
  List.filter_eq_nil_iff.mpr fun op hop => by simp [h op hop]

/-- A glyph is a glyph. -/
theorem glyphsOf_glyphOp (l : Layout) (x y : UInt16) (g : List UInt8) (cp : UInt32)
    (black : Bool) : glyphsOf [l.glyphOp o x y g cp black] = [l.glyphOp o x y g cp black] := by
  rw [glyphsOf, List.filter_singleton, glyphIn_glyphOp]
  rfl

/-- One cell of a word that is broken at the margin. -/
theorem places_emitBrokenCell (r : PageRenderer) (k : Nat) :
    Places o t invert r (r.emitBrokenCell o t invert k) (r.placeBroken o k) := by
  have hwrap : Places o t invert r (r.wrapIfNeeded o r.advance) [] := by
    rw [wrapIfNeeded]
    split
    · exact .of_adds (onlyPen_newline r) (.newline r)
    · exact .refl r
  exact hwrap.trans (places_emitGlyph _ (glyphsOf_glyphOp _ _ _ _ _ _))

/-- One cell of a word. -/
theorem places_emitCell (r : PageRenderer) {k : Nat} (hk : isSpace (t.byte k) = false) :
    Places o t invert r (r.emitCell o t invert k) (r.place k) := by
  apply places_emitGlyph
  have hfill : glyphsOf (if r.hasBg then
        [.fillRect r.x r.screenY (UInt16.ofNat r.advance) (r.rowH o) invert]
      else if invert then [.fillRect r.x r.screenY (UInt16.ofNat r.advance) (r.rowH o) true]
      else []) = [] := by
    refine glyphsOf_eq_nil fun op hop => ?_
    split_ifs at hop
    · exact List.mem_singleton.mp hop ▸ rfl
    · exact List.mem_singleton.mp hop ▸ rfl
    · cases hop
  have hunder : glyphsOf (underlineOps o invert (UInt16.ofNat r.advance) r.toLayout r.screenY)
      = [] := glyphsOf_eq_nil fun op hop => glyphIn_of_mem_underlineOps hop
  rw [cellOps_of_glyph o invert (isBlank_glyph t hk), glyphsOf_append, hfill, List.nil_append,
    ← List.singleton_append, glyphsOf_append, hunder, glyphsOf_glyphOp]
  rfl

/-- The break in front of a word, or its spaces, lay out no cell. -/
theorem places_breakOrLead (r : PageRenderer) (w : Word) :
    Places o t invert r (r.breakOrLead o t invert w) [] :=
  .of_adds (onlyPen_breakOrLead t invert r w) (adds_breakOrLead r w)

/-- A word. -/
theorem places_emitWord (r : PageRenderer) (i : Nat) :
    Places o t invert r (r.emitWord o t invert (t.wordAt i))
      (r.placeWord o t invert (t.wordAt i)) := by
  rw [emitWord, placeWord]
  split
  · exact .run (fun r k _ => places_emitBrokenCell r k) r
  · exact (places_breakOrLead r (t.wordAt i)).trans
      (.run (fun r k hk => places_emitCell r (t.not_isSpace_of_mem_steps hk)) _)

/-- **A run of prose draws the cells of its trace** whose rows are visible. -/
theorem places_emitRun (hlit : r.literal = false) :
    Places o t invert r (r.emitRun o t invert) (r.placedCells o t invert) := by
  have hguard : Places o t invert r r.guardIndent [] :=
    .of_adds ⟨rfl, rfl, rfl, rfl⟩ (.refl r)
  rw [emitRun, if_neg (by simp [hlit])]
  refine hguard.trans (.run (fun r w hw => ?_) r.guardIndent)
  rw [(t.eq_wordAt_of_mem_words hw).1]
  exact places_emitWord r w.i

/-- What a run of prose draws. -/
theorem glyphs_emitRun (hlit : r.literal = false) : glyphsOf (newOps r (r.emitRun o t invert))
    = ((r.placedCells o t invert).filter fun c => r.shows c.row).map (r.drawCell o t invert) := by
  have hplaces : Places o t invert r (r.emitRun o t invert) (r.placedCells o t invert) :=
    places_emitRun hlit
  obtain ⟨m, hm, hglyphs⟩ := hplaces.glyphs
  rw [newOps, hm, List.drop_left]
  exact hglyphs

/-! ## Which cells, and where -/

/-- The trace of steps that lay out one cell each. -/
theorem map_k_outputs {step : PageRenderer → Nat → PageRenderer}
    {out : PageRenderer → Nat → List PlacedCell} (h : ∀ r k, (out r k).map PlacedCell.k = [k])
    (r : PageRenderer) (ks : List Nat) : (Runs.outputs step out r ks).map PlacedCell.k = ks := by
  induction ks generalizing r with
  | nil => rfl
  | cons k ks ih => rw [Runs.outputs_cons, List.map_append, h, ih, List.singleton_append]

/-- **The cells of a word** are its codepoints in order, and the spaces in front of it where it is
broken. -/
theorem map_k_placeWord (r : PageRenderer) (w : Word) :
    (r.placeWord o t invert w).map PlacedCell.k
      = if TooLong t r.leftEdge r.advance w then t.steps w.i w.w else t.steps w.sp w.w := by
  rw [placeWord]
  split
  · exact map_k_outputs (fun _ _ => rfl) _ _
  · exact map_k_outputs (fun _ _ => rfl) _ _

/-- The cells of a word that is not broken follow one another on a row. -/
theorem outputs_place (r : PageRenderer) (ks : List Nat) :
    Runs.outputs (emitCell o t invert) place r ks
      = rowCells r.y (UInt16.ofNat r.advance) r.x ks := by
  induction ks generalizing r with
  | nil => rfl
  | cons k ks ih =>
    have hpen := emitGlyph_pen (o := o) t (cellOps o invert) r k
    have hadv : (r.emitCell o t invert k).advance = r.advance :=
      (onlyPen_emitGlyph t (cellOps o invert) r k).advance_eq
    rw [Runs.outputs_cons, ih, hadv, emitCell, hpen.1, hpen.2]
    rfl

/-- A row of cells is on its row. -/
theorem row_of_mem_rowCells {row adv x : UInt16} {ks : List Nat} {c : PlacedCell}
    (h : c ∈ rowCells row adv x ks) : c.row = row := by
  induction ks generalizing x with
  | nil => cases h
  | cons k ks ih =>
    obtain rfl | hmem := List.mem_cons.mp h
    · rfl
    · exact ih hmem

/-- **A word that is not broken is on one row.** -/
theorem row_of_mem_placeWord {w : Word} (hlong : ¬ TooLong t r.leftEdge r.advance w)
    {c : PlacedCell} (h : c ∈ r.placeWord o t invert w) :
    c.row = (r.breakOrLead o t invert w).y := by
  rw [placeWord, if_neg hlong, outputs_place] at h
  exact row_of_mem_rowCells h

/-! ## Runs that stay on their row -/

/-- Cells behind others on a row. -/
theorem rowCells_append (row x : UInt16) (adv : Nat) (ks ls : List Nat) :
    rowCells row (UInt16.ofNat adv) x (ks ++ ls)
      = rowCells row (UInt16.ofNat adv) x ks
        ++ rowCells row (UInt16.ofNat adv) (x + UInt16.ofNat (ks.length * adv)) ls := by
  induction ks generalizing x with
  | nil => simp [rowCells]
  | cons k ks ih =>
    have hpen : x + UInt16.ofNat adv + UInt16.ofNat (ks.length * adv)
        = x + UInt16.ofNat ((k :: ks).length * adv) := by
      rw [List.length_cons, Nat.succ_mul, Nat.add_comm, UInt16.ofNat_add, UInt16.add_assoc]
    rw [List.cons_append, rowCells, ih, hpen]
    rfl

/-- The index of a cell of a row is one of the indices laid out. -/
theorem k_mem_of_mem_rowCells {row adv x : UInt16} {ks : List Nat} {c : PlacedCell}
    (h : c ∈ rowCells row adv x ks) : c.k ∈ ks := by
  induction ks generalizing x with
  | nil => cases h
  | cons k ks ih =>
    obtain rfl | hmem := List.mem_cons.mp h
    · exact List.mem_cons_self
    · exact List.mem_cons_of_mem k (ih hmem)

/-- The cells that are no spaces. -/
def printed (t : Span) (cs : List PlacedCell) : List PlacedCell :=
  cs.filter fun c => !isSpace (t.byte c.k)

/-- The spaces in front of a word that does not wrap move the pen over their width. -/
theorem breakOrLead_pen {w : Word} (hwrap : ¬ Wraps t r.leftEdge r.advance r.x w) :
    (r.breakOrLead o t invert w).x = r.x + leadW r.advance w ∧
      (r.breakOrLead o t invert w).y = r.y := by
  rw [breakOrLead, if_neg hwrap]
  split
  next hzero => exact ⟨by rw [hzero, UInt16.add_zero], rfl⟩
  next => exact ⟨by simp [emitLead, penOver], by simp [emitLead, penOver]⟩

/-- **The cells of a word with room for it**: one behind the other from the pen, behind the spaces
in front of it. -/
theorem placeWord_of_room {i : Nat} (hedge : r.leftEdge ≤ r.x.toNat)
    (hle : r.x.toNat + (t.steps i (t.wordAt i).w).length * r.advance ≤ right) :
    r.placeWord o t invert (t.wordAt i)
      = printed t (rowCells r.y (UInt16.ofNat r.advance) r.x (t.steps i (t.wordAt i).w)) := by
  have hbounds := r.leftEdge_bounds
  have hcontent : contentW = 396 := rfl
  have hmargin : marginX = 2 := rfl
  have hright : right = 398 := rfl
  have hlen := t.cells_wordAt i
  have hi : (t.wordAt i).i = i := rfl
  have hsp := t.length_steps_skipSpaces i
  have hspaces : (t.wordAt i).sp = t.skipSpaces i := rfl
  rw [hlen, Nat.add_mul] at hle
  have hword : (wordW t r.advance (t.wordAt i)).toNat
      ≤ t.cells (t.wordAt i).sp (t.wordAt i).w * r.advance := by
    rw [wordW, UInt16.toNat_ofNat']
    exact Nat.mod_le _ _
  have hlead : (leadW r.advance (t.wordAt i)).toNat ≤ ((t.wordAt i).sp - i) * r.advance := by
    rw [leadW, UInt16.toNat_ofNat']
    exact Nat.mod_le _ _
  have hlong : ¬ TooLong t r.leftEdge r.advance (t.wordAt i) := by
    intro hlong
    have hbeyond : contentW - (r.leftEdge - marginX)
        < (wordW t r.advance (t.wordAt i)).toNat := hlong
    omega
  have hwrap : ¬ Wraps t r.leftEdge r.advance r.x (t.wordAt i) := by
    intro hwrap
    have hbeyond := hwrap.1
    omega
  obtain ⟨hx, hy⟩ : (r.breakOrLead o t invert (t.wordAt i)).x = _ ∧
      (r.breakOrLead o t invert (t.wordAt i)).y = r.y := breakOrLead_pen hwrap
  have hadv : (r.breakOrLead o t invert (t.wordAt i)).advance = r.advance :=
    (onlyPen_breakOrLead t invert r _).advance_eq
  have hleadLen : (t.steps i (t.wordAt i).sp).length = (t.wordAt i).sp - (t.wordAt i).i := hsp
  -- the spaces are no cells, and every other codepoint is one
  have hnone : printed t (rowCells r.y (UInt16.ofNat r.advance) r.x (t.steps i (t.wordAt i).sp))
      = [] := List.filter_eq_nil_iff.mpr fun c hc => by
    simp [t.isSpace_of_mem_steps (k_mem_of_mem_rowCells hc)]
  have hall : ∀ x, printed t (rowCells r.y (UInt16.ofNat r.advance) x
      (t.steps (t.wordAt i).sp (t.wordAt i).w))
      = rowCells r.y (UInt16.ofNat r.advance) x (t.steps (t.wordAt i).sp (t.wordAt i).w) :=
    fun x => List.filter_eq_self.mpr fun c hc => by
      simp [t.not_isSpace_of_mem_steps (k_mem_of_mem_rowCells hc)]
  rw [placeWord, if_neg hlong, outputs_place, hadv, hx, hy, t.steps_word, rowCells_append, printed,
    List.filter_append, ← printed, ← printed, hnone, hall, List.nil_append, hleadLen]
  rfl

/-- **The cells of words with room for them.** -/
theorem placedWords_of_room {ws : List Word} (hws : ∀ w ∈ ws, w = t.wordAt w.i) (r : PageRenderer)
    (hedge : r.leftEdge ≤ r.x.toNat)
    (hle : r.x.toNat + (ws.flatMap fun w => t.steps w.i w.w).length * r.advance ≤ right) :
    Runs.outputs (emitWord o t invert) (placeWord o t invert) r ws
      = printed t (rowCells r.y (UInt16.ofNat r.advance) r.x
        (ws.flatMap fun w => t.steps w.i w.w)) := by
  induction ws generalizing r with
  | nil => rfl
  | cons w ws ih =>
    have hw := hws w List.mem_cons_self
    have hin : right ≤ lcdWidth := by decide
    rw [List.flatMap_cons, List.length_append, Nat.add_mul] at hle
    have hroom : r.x.toNat + (t.steps w.i (t.wordAt w.i).w).length * r.advance ≤ right := by
      rw [← hw]
      omega
    have hcells : r.placeWord o t invert (t.wordAt w.i) = _ := placeWord_of_room hedge hroom
    obtain ⟨hgoes, hx⟩ :=
      goes_emitWord (o := o) t invert r (i := w.i) (hroom.trans hin) (.inl hroom)
    rw [← hw] at hcells hgoes hx
    have hpen : (r.emitWord o t invert w).x
        = r.x + UInt16.ofNat ((t.steps w.i w.w).length * r.advance) := by
      rw [← UInt16.toNat_inj, hx, UInt16.toNat_add, UInt16.toNat_ofNat']
      have hright : right = 398 := rfl
      omega
    have hrest := ih (fun v hv => hws v (List.mem_cons_of_mem w hv)) (r.emitWord o t invert w)
      (by rw [hgoes.pen.leftEdge_eq, hx]; omega) (by rw [hgoes.pen.advance_eq, hx]; omega)
    rw [Runs.outputs_cons, hcells, hrest, hgoes.pen.advance_eq, hgoes.y_eq, hpen, List.flatMap_cons,
      rowCells_append, printed, printed, printed, List.filter_append]

end PageRenderer

end Thicket.Page
