import Mathlib.Data.Multiset.Bind
import Thicket.Page.SliceCover

/-! # The holes of a page

The codepoints of a page that the face selected for them does not carry, callback by callback: of
prose, of preformatted text up to the clip, of the cells of tables, and of dividers. What the
renderer notes is this list, under conditions on blanks, dividers and tables. -/

namespace Thicket.Page

open Thicket.Lcd Thicket.Page.Span PageRenderer

/-! ## The holes of a run -/

/-- The codepoints that a face does not carry. -/
def unseen (has : UInt32 → Bool) (cps : List UInt32) : List UInt32 := cps.filter fun cp => !has cp

/-- Of one list after another. -/
theorem unseen_append (has : UInt32 → Bool) (cps cps' : List UInt32) :
    unseen has (cps ++ cps') = unseen has cps ++ unseen has cps' :=
  List.filter_append ..

/-- A codepoint that is carried. -/
theorem unseen_carried {has : UInt32 → Bool} {cp : UInt32} (h : has cp = true) :
    unseen has [cp] = [] :=
  List.filter_eq_nil_iff.mpr fun _ hcp => by simp [List.mem_singleton.mp hcp, h]

/-- The cells of preformatted text in front of the clip, from a pen. -/
def fitting : Nat → List Nat → List Nat
  | _, [] => []
  | x, k :: ks => if right < x + fontAdvance then [] else k :: fitting (x + fontAdvance) ks

/-- Where a run begins on the row. -/
def penOf (l : Layout) : Nat := if l.rowOpen then l.x.toNat else l.leftEdge

/-- The codepoints of a run that are laid out: all of prose, and preformatted text up to the
clip. -/
def laidOf (t : Span) (l : Layout) : List Nat :=
  if l.literal then fitting (penOf l) (t.steps 0 t.len) else t.steps 0 t.len

/-- Whether the face selected carries a codepoint: preformatted text is in the body face. -/
def runHas (o : Options) (l : Layout) (cp : UInt32) : Bool :=
  if l.literal then (glyphFor o.fonts cp).isSome else l.faceHas o cp

/-- **The holes of a run**: the codepoints laid out that are no blanks and that the face does not
carry. -/
def runHoles (o : Options) (t : Span) (l : Layout) : List UInt32 :=
  unseen (runHas o l)
    (((laidOf t l).filter fun k => !isSpace (t.byte k)).map fun k => codepointOf (t.glyph k))

/-- **The blanks of a run that are looked up are carried**: those of preformatted text, and those in
front of a word that is broken. -/
def BlanksCarried (o : Options) (t : Span) (l : Layout) : Prop :=
  if l.literal then ∀ k ∈ laidOf t l, isSpace (t.byte k) = true →
    (glyphFor o.fonts (codepointOf (t.glyph k))).isSome = true
  else ∀ w ∈ t.words, TooLong t l.leftEdge l.advance w → ∀ k ∈ t.steps w.i w.sp,
    l.faceHas o (codepointOf (t.glyph k)) = true

instance (o : Options) (t : Span) (l : Layout) : Decidable (BlanksCarried o t l) :=
  inferInstanceAs (Decidable (ite _ _ _))

/-! ## What is noted -/

/-- **These codepoints have been noted** from one state to the other, in this order. -/
def Notes (r s : PageRenderer) (cps : List UInt32) : Prop :=
  s.missing = cps.foldl (fun m cp => m.note cp) r.missing

variable {o : Options} {t : Span} {invert : Bool} {r s u : PageRenderer} {ls ms : List UInt32}

/-- Nothing noted. -/
theorem Notes.of_eq (h : s.missing = r.missing) : Notes r s [] := h

/-- One piece after another. -/
theorem Notes.trans (h : Notes r s ls) (k : Notes s u ms) : Notes r u (ls ++ ms) := by
  rw [Notes, List.foldl_append, ← h]
  exact k

/-- Nothing is noted by what comes after. -/
theorem Notes.before (h : Notes r s ls) (k : u.missing = s.missing) : Notes r u ls := by
  rw [Notes, k]
  exact h

/-- Nothing is noted by what comes before. -/
theorem Notes.after (h : s.missing = r.missing) (k : Notes s u ms) : Notes r u ms :=
  (Notes.of_eq h).trans k

/-- Drawing notes nothing. -/
theorem missing_paint (d : Drawing) (r : PageRenderer) : (r.paint d).missing = r.missing := by
  rw [PageRenderer.paint]
  split <;> rfl

/-- A codepoint that is looked up. -/
theorem notes_noteUnless (has : UInt32 → Bool) (cp : UInt32) (r : PageRenderer) :
    Notes r (r.noteUnless (has cp) cp) (unseen has [cp]) := by
  rw [Notes, unseen, List.filter_singleton, noteUnless]
  cases has cp <;> rfl

/-- A step that only moves the pen looks up what the step before would. -/
theorem OnlyPen.faceHas_eq (h : OnlyPen r s) : s.faceHas o = r.faceHas o := by
  rw [h.layout_eq]
  rfl

/-- **Steps that note under a condition**, one after the other. -/
theorem Notes.along {ι : Type} {step : PageRenderer → ι → PageRenderer} {f : ι → List UInt32}
    {ok : PageRenderer → ι → Prop} (Inv : PageRenderer → Prop)
    (hstep : ∀ r i, Inv r → Inv (step r i))
    (h : ∀ r i, Inv r → ok r i → Notes r (step r i) (f i)) {is : List ι} {r : PageRenderer}
    (halong : Runs.Along step ok r is) (hr : Inv r) :
    Notes r (Runs.run step r is) (is.flatMap f) := by
  induction is generalizing r with
  | nil => exact .of_eq rfl
  | cons i is ih => exact (h r i hr halong.1).trans (ih halong.2 (hstep r i hr))

/-- Steps that note, one after the other. -/
theorem Notes.run {ι : Type} {step : PageRenderer → ι → PageRenderer} {f : ι → List UInt32}
    (Inv : PageRenderer → Prop) (hstep : ∀ r i, Inv r → Inv (step r i)) {is : List ι}
    (h : ∀ r, ∀ i ∈ is, Inv r → Notes r (step r i) (f i)) {r : PageRenderer} (hr : Inv r) :
    Notes r (Runs.run step r is) (is.flatMap f) :=
  .along Inv hstep (fun r i hr hi => h r i hi hr) (Runs.along_of_forall (fun _ _ hi => hi) r) hr

/-- What is noted of codepoints, one by one. -/
theorem flatMap_unseen (has : UInt32 → Bool) (cp : Nat → UInt32) (ks : List Nat) :
    ks.flatMap (fun k => unseen has [cp k]) = unseen has (ks.map cp) := by
  induction ks with
  | nil => rfl
  | cons k ks ih =>
    rw [List.flatMap_cons, ih, ← unseen_append]
    rfl

/-! ## Prose -/

/-- The face of the row, and the measures of a line. -/
def SameMeasures (q r : PageRenderer) : Prop :=
  r.faceHas o = q.faceHas o ∧ r.leftEdge = q.leftEdge ∧ r.advance = q.advance

/-- They stay. -/
theorem OnlyPen.sameMeasures {q : PageRenderer} (h : OnlyPen r s) (hr : SameMeasures (o := o) q r) :
    SameMeasures (o := o) q s :=
  ⟨h.faceHas_eq.trans hr.1, h.leftEdge_eq.trans hr.2.1, h.advance_eq.trans hr.2.2⟩

/-- A codepoint of the row's face. -/
theorem notes_emitGlyph (d : List UInt8 → Drawing) (r : PageRenderer) (k : Nat) :
    Notes r (r.emitGlyph o t d k) (unseen (r.faceHas o) [codepointOf (t.glyph k)]) :=
  (notes_noteUnless (r.faceHas o) _ r).before (missing_paint _ _)

/-- One cell of a word that is broken. -/
theorem notes_emitBrokenCell (r : PageRenderer) (k : Nat) :
    Notes r (r.emitBrokenCell o t invert k) (unseen (r.faceHas o) [codepointOf (t.glyph k)]) := by
  have hpen : OnlyPen r (r.wrapIfNeeded o r.advance) := onlyPen_wrapIfNeeded _ r
  have hmissing : (r.wrapIfNeeded o r.advance).missing = r.missing := by
    rw [wrapIfNeeded]
    split <;> rfl
  rw [← hpen.faceHas_eq]
  exact .after hmissing (notes_emitGlyph _ _ k)

/-- **The letters of a word** with the spaces in front of it are its codepoints. -/
theorem letters_wordAt (i : Nat) : t.letters i (t.wordAt i).w
    = (t.steps (t.wordAt i).sp (t.wordAt i).w).map fun k => codepointOf (t.glyph k) := by
  have hword : (t.steps (t.wordAt i).sp (t.wordAt i).w).filter (fun k => !isSpace (t.byte k))
      = t.steps (t.wordAt i).sp (t.wordAt i).w :=
    List.filter_eq_self.mpr fun k hk => by simp [t.not_isSpace_of_mem_steps hk]
  have hlead : (t.steps i (t.wordAt i).sp).filter (fun k => !isSpace (t.byte k)) = [] :=
    List.filter_eq_nil_iff.mpr fun k hk => by simp [t.isSpace_of_mem_steps hk]
  rw [letters, t.steps_word, List.filter_append, hlead, hword, List.nil_append]

/-- The break in front of a word notes nothing. -/
theorem missing_breakOrLead (w : Word) (r : PageRenderer) :
    (r.breakOrLead o t invert w).missing = r.missing := by
  rw [breakOrLead]
  split_ifs
  · rfl
  · rfl
  · exact missing_paint _ r

/-- **A word notes the holes of its codepoints**, if it is broken and the blanks in front of it are
carried. -/
theorem notes_emitWord {q r : PageRenderer} (hr : SameMeasures (o := o) q r) {i : Nat}
    (hblank : TooLong t q.leftEdge q.advance (t.wordAt i) →
      ∀ k ∈ t.steps i (t.wordAt i).sp, q.faceHas o (codepointOf (t.glyph k)) = true) :
    Notes r (r.emitWord o t invert (t.wordAt i))
      (unseen (q.faceHas o) (t.letters i (t.wordAt i).w)) := by
  rw [emitWord, hr.2.1, hr.2.2, letters_wordAt, ← flatMap_unseen]
  split
  next hlong =>
    -- the blanks in front of it are looked up as well, and are carried
    have hrun : Notes r (Runs.run (emitBrokenCell o t invert) r (t.steps i (t.wordAt i).w))
        ((t.steps i (t.wordAt i).w).flatMap
          fun k => unseen (q.faceHas o) [codepointOf (t.glyph k)]) := by
      refine Notes.run (SameMeasures (o := o) q) (fun r k hr => ?_) (fun r k _ hr => ?_) hr
      · exact OnlyPen.sameMeasures (frame_onlyPen.emitBrokenCell t invert r k) hr
      · rw [← hr.1]
        exact notes_emitBrokenCell r k
    have hcarried : (t.steps i (t.wordAt i).sp).flatMap
        (fun k => unseen (q.faceHas o) [codepointOf (t.glyph k)]) = [] := by
      rw [flatMap_unseen]
      refine List.filter_eq_nil_iff.mpr fun cp hcp => ?_
      obtain ⟨k, hk, rfl⟩ := List.mem_map.mp hcp
      simp [hblank hlong k hk]
    rw [t.steps_word, List.flatMap_append, hcarried, List.nil_append, ← t.steps_word] at hrun
    exact hrun
  next hlong =>
    have hbreak : OnlyPen r (r.breakOrLead o t invert (t.wordAt i)) :=
      onlyPen_breakOrLead t invert r _
    refine .after (missing_breakOrLead _ r) (Notes.run (SameMeasures (o := o) q) (fun r k hr => ?_)
      (fun r k _ hr => ?_) (hbreak.sameMeasures hr))
    · exact (onlyPen_emitGlyph t _ r k).sameMeasures hr
    · rw [← hr.1]
      exact notes_emitGlyph _ r k

/-- The letters of the words are those of the run. -/
theorem flatMap_letters : t.words.flatMap (fun w => t.letters w.i w.w) = t.letters 0 t.len := by
  rw [letters, ← t.flatMap_words, List.filter_flatMap, List.map_flatMap]
  rfl

/-- **A run of prose notes its holes.** -/
theorem notes_prose (hlit : r.literal = false) (hblank : BlanksCarried o t r.toLayout) :
    Notes r (r.emitRun o t invert) (runHoles o t r.toLayout) := by
  have hblank' : ∀ w ∈ t.words, TooLong t r.leftEdge r.advance w → ∀ k ∈ t.steps w.i w.sp,
      r.faceHas o (codepointOf (t.glyph k)) = true := by
    rw [BlanksCarried, if_neg (by simp [hlit])] at hblank
    exact hblank
  have hhas : runHas o r.toLayout = r.faceHas o := by
    funext cp
    rw [runHas, if_neg (by simp [hlit])]
  have hlaid : laidOf t r.toLayout = t.steps 0 t.len := by
    rw [laidOf, if_neg (by simp [hlit])]
  have hrun : Notes r.guardIndent (Runs.run (emitWord o t invert) r.guardIndent t.words)
      (t.words.flatMap fun w => unseen (r.faceHas o) (t.letters w.i w.w)) := by
    refine Notes.run (SameMeasures (o := o) r) (fun q w hq => ?_) (fun q w hw hq => ?_)
      ⟨rfl, rfl, rfl⟩
    · exact (onlyPen_emitWord t invert q w).sameMeasures hq
    · have hat := (t.eq_wordAt_of_mem_words hw).1
      rw [hat]
      exact notes_emitWord hq fun hlong => hat ▸ hblank' w hw (hat ▸ hlong)
  -- word by word or along the whole run, the letters come in the same order
  have hletters : t.words.flatMap (fun w => unseen (r.faceHas o) (t.letters w.i w.w))
      = unseen (r.faceHas o) (t.letters 0 t.len) := by
    rw [← flatMap_letters, unseen, List.filter_flatMap]
    rfl
  rw [emitRun, if_neg (by simp [hlit]), runHoles, hhas, hlaid]
  exact .after rfl (hletters ▸ hrun)

/-! ## Preformatted text -/

/-- **Preformatted cells note their holes**, up to the clip, if their blanks are carried. -/
theorem notes_emitLiteral (ks : List Nat) (r : PageRenderer)
    (hblank : ∀ k ∈ fitting r.x.toNat ks, isSpace (t.byte k) = true →
      (glyphFor o.fonts (codepointOf (t.glyph k))).isSome = true) :
    Notes r (emitLiteralFrom o t invert ks r) (unseen (fun cp => (glyphFor o.fonts cp).isSome)
      (((fitting r.x.toNat ks).filter fun k => !isSpace (t.byte k)).map
        fun k => codepointOf (t.glyph k))) := by
  induction ks generalizing r with
  | nil => exact .of_eq rfl
  | cons k ks ih =>
    rw [fitting] at hblank ⊢
    rw [emitLiteralFrom]
    split at hblank
    next hout =>
      rw [if_pos hout, if_pos hout]
      exact .of_eq (missing_paint _ r)
    next hin =>
      rw [if_neg hin, if_neg hin]
      have hx : (r.emitLiteralCell o t invert k).x.toNat = r.x.toNat + fontAdvance :=
        emitLiteralCell_x t invert k hin
      have hcell : Notes r (r.emitLiteralCell o t invert k)
          (unseen (fun cp => (glyphFor o.fonts cp).isSome) [codepointOf (t.glyph k)]) :=
        (notes_noteUnless (fun cp => (glyphFor o.fonts cp).isSome) _ r).before (missing_paint _ _)
      have hrest := ih (r.emitLiteralCell o t invert k) (by
        rw [hx]
        exact fun j hj => hblank j (List.mem_cons_of_mem k hj))
      rw [hx] at hrest
      by_cases hspace : isSpace (t.byte k) = true
      · -- a blank that is carried
        have hcarried := hblank k List.mem_cons_self hspace
        rw [unseen_carried hcarried] at hcell
        rw [List.filter_cons_of_neg (by simp [hspace])]
        exact hcell.trans hrest
      · rw [List.filter_cons_of_pos (by simp [hspace]), List.map_cons, ← List.singleton_append,
          unseen_append]
        exact hcell.trans hrest

/-- The pen from which a run of preformatted text is laid out. -/
theorem freshRow_x (r : PageRenderer) : r.freshRow.x.toNat = penOf r.toLayout := by
  have hbounds := r.leftEdge_bounds
  rw [penOf, freshRow]
  show (if r.rowOpen then r.x else UInt16.ofNat r.leftEdge).toNat = _
  cases r.rowOpen with
  | true => rfl
  | false =>
    rw [if_neg Bool.false_ne_true, if_neg Bool.false_ne_true, UInt16.toNat_ofNat']
    exact Nat.mod_eq_of_lt (by omega)

/-- **A run notes its holes**, if the blanks that are looked up are carried. -/
theorem notes_emitRun (hblank : BlanksCarried o t r.toLayout) :
    Notes r (r.emitRun o t invert) (runHoles o t r.toLayout) := by
  cases hlit : r.literal with
  | false => exact notes_prose hlit hblank
  | true =>
    rw [BlanksCarried, if_pos hlit, laidOf, if_pos hlit, ← freshRow_x] at hblank
    have hhas : runHas o r.toLayout = fun cp => (glyphFor o.fonts cp).isSome := by
      funext cp
      rw [runHas, if_pos hlit]
    have hcells : Notes r.freshRow (emitLiteralFrom o t invert (t.steps 0 t.len) r.freshRow) _ :=
      notes_emitLiteral _ r.freshRow hblank
    rw [emitRun, if_pos hlit, emitLiteral, runHoles, hhas, laidOf, if_pos hlit, ← freshRow_x]
    exact .after rfl hcells

/-! ## Tables -/

/-- The holes of a slice of a cell. -/
def sliceHoles (o : Options) (r : PageRenderer) (row ln c : Nat) : List UInt32 :=
  let p := (r.cell row c).slice (r.colW c) ln
  unseen (runHas o r.toLayout) (p.letters 0 p.len)

/-- **The holes of a cell.** -/
def cellHoles (o : Options) (r : PageRenderer) (row c : Nat) : List UInt32 :=
  unseen (runHas o r.toLayout) ((r.cell row c).letters 0 (r.cell row c).len)

/-- The holes of a table, cell by cell. -/
def tableHoles (o : Options) (r : PageRenderer) : List UInt32 :=
  (List.range r.tRows).flatMap fun row => (List.range r.tableCols).flatMap (cellHoles o r row)

/-- The holes of a table, slice by slice. -/
def tableLaid (o : Options) (r : PageRenderer) : List UInt32 :=
  (List.range r.tRows).flatMap fun row => (List.range (r.rowLines row)).flatMap fun ln =>
    (List.range r.tableCols).flatMap (sliceHoles o r row ln)

/-- **A slice is laid out whole**, and its blanks that are looked up are carried. -/
def SliceReports (o : Options) (r : PageRenderer) (row ln c : Nat) : Prop :=
  let p := (r.cell row c).slice (r.colW c) ln
  BlanksCarried o p (r.toColumn c).toLayout ∧ laidOf p (r.toColumn c).toLayout = p.steps 0 p.len

instance (o : Options) (r : PageRenderer) (row ln c : Nat) :
    Decidable (SliceReports o r row ln c) :=
  inferInstanceAs (Decidable (_ ∧ _))

/-- **A line of a table is noted**: it is visible, or there is nothing to note. -/
def LineReports (o : Options) (row : Nat) (r : PageRenderer) (ln : Nat) : Prop :=
  if r.rowVisible then ∀ c < r.tableCols, SliceReports o r row ln c
  else ∀ c < r.tableCols, sliceHoles o r row ln c = []

instance (o : Options) (row : Nat) (r : PageRenderer) (ln : Nat) :
    Decidable (LineReports o row r ln) :=
  inferInstanceAs (Decidable (ite _ _ _))

/-- **A cell is laid out whole**: it breaks between its sequences and has no more lines than are
drawn, or there is nothing to note. -/
def CellReports (o : Options) (r : PageRenderer) (row c : Nat) : Prop :=
  (Unbroken (r.cell row c) ∧ 1 ≤ r.colW c ∧ (r.cell row c).linesNeeded (r.colW c) ≤ 32) ∨
    (cellHoles o r row c = [] ∧ ∀ ln < r.rowLines row, sliceHoles o r row ln c = [])

instance (o : Options) (r : PageRenderer) (row c : Nat) : Decidable (CellReports o r row c) :=
  inferInstanceAs (Decidable (_ ∨ _))

/-- The condition of a table. -/
structure TableReports (o : Options) (r : PageRenderer) : Prop where
  /-- Its cells. -/
  cells : ∀ row < r.tRows, ∀ c < r.tableCols, CellReports o r row c
  /-- Its lines, as they are drawn. -/
  lines : Runs.Along (tableRow o)
    (fun r row => Runs.Along (tableLine o row) (LineReports o row) r (List.range (r.rowLines row)))
    r (List.range r.tRows)

instance (o : Options) (r : PageRenderer) : Decidable (TableReports o r) :=
  decidable_of_iff (_ ∧ _) ⟨fun h => ⟨h.1, h.2⟩, fun h => ⟨h.cells, h.lines⟩⟩

/-- A slice notes its holes. -/
theorem notes_emitSlice {row ln c : Nat} (h : SliceReports o r row ln c) :
    Notes r (r.emitSlice o row ln c) (sliceHoles o r row ln c) := by
  rw [emitSlice]
  split
  next hempty =>
    have hnil : sliceHoles o r row ln c = [] := by
      rw [sliceHoles, letters, hempty, steps, positions_of_le (Nat.le_refl 0)]
      rfl
    rw [hnil]
    exact .of_eq rfl
  next =>
    have hrun : Notes (r.toColumn c) ((r.toColumn c).emitRun o
        ((r.cell row c).slice (r.colW c) ln) false) _ := notes_emitRun h.1
    rw [runHoles, h.2] at hrun
    exact .after rfl hrun

/-- The holes of the slices stay while the pen moves. -/
theorem OnlyPen.sliceHoles_eq (h : OnlyPen r s) : sliceHoles o s = sliceHoles o r := by
  funext row ln c
  rw [sliceHoles, sliceHoles, h.table_eq, h.layout_eq]
  rfl

/-- The columns stay. -/
theorem OnlyPen.toLayout_toColumn (h : OnlyPen r s) (c : Nat) :
    (s.toColumn c).toLayout = { (r.toColumn c).toLayout with y := s.y } := by
  show { s.toLayout with x := columnX s.toLayout s.toTableState c, rowOpen := true } = _
  rw [h.layout_eq, h.table_eq]
  rfl

/-- So does the condition of a slice. -/
theorem OnlyPen.sliceReports (h : OnlyPen r s) {row ln c : Nat} (hr : SliceReports o r row ln c) :
    SliceReports o s row ln c := by
  rw [SliceReports, h.toLayout_toColumn, h.table_eq]
  exact hr

/-- The rows and columns of a table stay. -/
theorem OnlyPen.table_sizes (h : OnlyPen r s) :
    s.tableCols = r.tableCols ∧ s.rowLines = r.rowLines := by
  rw [h.table_eq]
  exact ⟨rfl, rfl⟩

/-- **A line of a table notes its holes.** -/
theorem notes_tableLine {row ln : Nat} (h : LineReports o row r ln) :
    Notes r (r.tableLine o row ln) ((List.range r.tableCols).flatMap (sliceHoles o r row ln)) := by
  rw [LineReports] at h
  rw [tableLine, drawLine]
  split at h
  next hv =>
    rw [if_pos hv]
    refine Notes.before (Notes.run (OnlyPen r)
      (fun q c hq => hq.trans (onlyPen_emitSlice row ln q c)) (fun q c hc hq => ?_) (.refl r)) rfl
    rw [← hq.sliceHoles_eq]
    exact notes_emitSlice (hq.sliceReports (h c (List.mem_range.mp hc)))
  next hv =>
    -- nothing is noted, and there is nothing to note
    have hnil : (List.range r.tableCols).flatMap (sliceHoles o r row ln) = [] :=
      List.flatMap_eq_nil_iff.mpr fun c hc => h c (List.mem_range.mp hc)
    rw [if_neg hv, hnil]
    exact .of_eq rfl

/-- A row of a table notes its holes. -/
theorem notes_tableRow {row : Nat}
    (h : Runs.Along (tableLine o row) (LineReports o row) r (List.range (r.rowLines row))) :
    Notes r (r.tableRow o row) ((List.range (r.rowLines row)).flatMap fun ln =>
      (List.range r.tableCols).flatMap (sliceHoles o r row ln)) := by
  have hlines := Notes.along
    (f := fun ln => (List.range r.tableCols).flatMap (sliceHoles o r row ln)) (OnlyPen r)
    (fun q ln hq => hq.trans (onlyPen_tableLine row q ln))
    (fun q ln hq hln => by
      rw [← hq.sliceHoles_eq, ← hq.table_sizes.1]
      exact notes_tableLine hln) h (.refl r)
  refine hlines.before ?_
  rw [tableRow, ruleHeader]
  split
  · exact missing_paint _ _
  · rfl

/-- **A table notes its holes**, slice by slice. -/
theorem notes_drawTable (h : TableReports o r) : Notes r (r.drawTable o) (tableLaid o r) := by
  refine Notes.before (Notes.along (OnlyPen r) (fun q row hq => hq.trans (onlyPen_tableRow q row))
    (fun q row hq hrow => ?_) h.lines (.refl r)) ?_
  · have hnotes := notes_tableRow hrow
    rw [hq.sliceHoles_eq, hq.table_sizes.1, hq.table_sizes.2] at hnotes
    exact hnotes
  · exact missing_paint _ _

/-! ## Slices and cells -/

/-- **The lines drawn leave nothing of a cell** that needs no more than there can be. -/
theorem len_le_lineStart {row c : Nat} (hc : c < r.tableCols) (hw : 1 ≤ r.colW c)
    (hneed : (r.cell row c).linesNeeded (r.colW c) ≤ 32) :
    (r.cell row c).len ≤ (r.cell row c).lineStart (r.colW c) (r.rowLines row) 0 := by
  obtain ⟨-, hcap, hcells⟩ := r.rowLines_bounds row
  have hlines := hcells c hc
  rw [TableState.cellLines] at hlines
  split at hlines
  next hempty =>
    have hlen : r.cellLen row c = 0 := hempty.resolve_right (by omega)
    exact hlen.trans_le (Nat.zero_le _)
  next =>
    rcases (linesFrom_le_iff _ _ 32 _ 0).mp hlines with hfull | hend
    · rw [Nat.le_antisymm hcap hfull]
      exact (linesNeeded_le_iff _ hw 32).mp hneed
    · exact hend

/-- **The slices of a cell have its holes.** -/
theorem flatMap_sliceHoles {row c : Nat} (hc : c < r.tableCols) (h : CellReports o r row c) :
    (List.range (r.rowLines row)).flatMap (fun ln => sliceHoles o r row ln c)
      = cellHoles o r row c := by
  rcases h with ⟨hwhole, hw, hneed⟩ | ⟨hnone, hslices⟩
  · rw [cellHoles, ← hwhole.flatMap_slices_eq (len_le_lineStart hc hw hneed), unseen,
      List.filter_flatMap]
    rfl
  · rw [hnone]
    exact List.flatMap_eq_nil_iff.mpr fun ln hln => hslices ln (List.mem_range.mp hln)

/-- **A table has the holes of its cells**, in another order. -/
theorem tableLaid_perm (h : ∀ row < r.tRows, ∀ c < r.tableCols, CellReports o r row c) :
    (tableLaid o r).Perm (tableHoles o r) := by
  refine List.Perm.flatMap_left _ fun row hrow => ?_
  have hcells : (List.range r.tableCols).flatMap (cellHoles o r row)
      = (List.range r.tableCols).flatMap fun c =>
          (List.range (r.rowLines row)).flatMap fun ln => sliceHoles o r row ln c :=
    List.flatMap_congr fun c hc =>
      (flatMap_sliceHoles (List.mem_range.mp hc)
        (h row (List.mem_range.mp hrow) c (List.mem_range.mp hc))).symm
  rw [hcells, ← Multiset.coe_eq_coe]
  simp only [← Multiset.coe_bind]
  exact Multiset.bind_bind _ _

end Thicket.Page
