import Thicket.Base.Tally
import Thicket.Page.Flat
import Thicket.Page.Slices

/-! # The report of the missing glyphs

What the renderer reports after a pass is the tally of the holes of the page, whatever the scroll
offset, as long as the blanks that are looked up are carried, and dividers and the lines of tables
are visible or have no holes. -/

namespace Thicket.Page

open Thicket.Lcd Thicket.Page.Span PageRenderer

/-! ## The holes of a callback -/

/-- `[img] `. -/
def imageTag : Span := .ofList [0x5B, 0x69, 0x6D, 0x67, 0x5D, 0x20]

/-- `[+] `. -/
def partialTag : Span := .ofList [0x5B, 0x2B, 0x5D, 0x20]

/-- Where the label of a checkbox begins, with a space. -/
def labelStart (f : Field) (s : Style) (r : PageRenderer) : PageRenderer :=
  (((r.setDepth s).freshRow).drawBox f).penOver (UInt16.ofNat fontAdvance)

/-- **The holes of a callback**: the codepoints that are no blanks and that the face selected for
them does not carry, of prose, of preformatted text up to the clip and of the cells of a table, and
the fill of a divider. -/
def holes (o : Options) (r : PageRenderer) : Callback → List UInt32
  | .text t s => runHoles o t (r.openText o t s).toLayout
  | .link label _ s => runHoles o label (r.setDepth s).freshRow.toLayout
  | .divider ch _ => unseen (fun cp => (glyphFor o.fonts cp).isSome) [ch]
  | .field f s =>
      if f.kind = .text ∨ f.label.len = 0 then []
      else runHoles o (.ofList [0x20]) (labelStart f s r).toLayout
        ++ runHoles o f.label ((labelStart f s r).emitHere o (.ofList [0x20])).toLayout
  | .image alt url s => runHoles o imageTag (r.setDepth s).toLayout
      ++ runHoles o (if alt.len = 0 then url else alt) ((r.setDepth s).emitHere o imageTag).toLayout
  | .part url s => runHoles o partialTag (r.setDepth s).toLayout
      ++ runHoles o url (((r.setDepth s).emitHere o partialTag).setDepth s).freshRow.toLayout
  | .tableEnd s => tableHoles o (r.setDepth s).fitTable
  | .blankLine | .anchor | .lineEnd _ | .tableBegin _ | .tableRow _ _ => []

/-- A table has nothing to draw. -/
def NothingDrawn (r : PageRenderer) : Prop :=
  (r.tRows = 0 ∨ r.tableCols = 0) ∨ r.nothingToScale (tableAvail r.toLayout) = true

instance (r : PageRenderer) : Decidable (NothingDrawn r) := inferInstanceAs (Decidable (_ ∨ _))

/-- The holes of a callback in the order they are noted: those of a table slice by slice. -/
def laid (o : Options) (r : PageRenderer) : Callback → List UInt32
  | .tableEnd s => if NothingDrawn (r.setDepth s) then [] else tableLaid o (r.setDepth s).fitTable
  | c => holes o r c

/-- **The condition of a callback**, on the state before it. -/
def StepReports (o : Options) (r : PageRenderer) : Callback → Prop
  | .text t s => BlanksCarried o t (r.openText o t s).toLayout
  | .link label _ s => BlanksCarried o label (r.setDepth s).freshRow.toLayout
  | .divider ch s =>
      (r.setDepth s).freshRow.rowVisible = true ∨ (glyphFor o.fonts ch).isSome = true
  | .field f s => (f.kind = .text ∨ f.label.len = 0) ∨
      BlanksCarried o (.ofList [0x20]) (labelStart f s r).toLayout ∧
        BlanksCarried o f.label ((labelStart f s r).emitHere o (.ofList [0x20])).toLayout
  | .image alt url s => BlanksCarried o imageTag (r.setDepth s).toLayout ∧
      BlanksCarried o (if alt.len = 0 then url else alt)
        ((r.setDepth s).emitHere o imageTag).toLayout
  | .part url s => BlanksCarried o partialTag (r.setDepth s).toLayout ∧
      BlanksCarried o url (((r.setDepth s).emitHere o partialTag).setDepth s).freshRow.toLayout
  | .tableEnd s => TableReports o (r.setDepth s).fitTable
  | .blankLine | .anchor | .lineEnd _ | .tableBegin _ | .tableRow _ _ => True

instance (o : Options) (r : PageRenderer) : ∀ c, Decidable (StepReports o r c)
  | .text _ _ | .link _ _ _ => inferInstanceAs (Decidable (BlanksCarried _ _ _))
  | .divider _ _ | .field _ _ => inferInstanceAs (Decidable (_ ∨ _))
  | .image _ _ _ | .part _ _ => inferInstanceAs (Decidable (_ ∧ _))
  | .tableEnd _ => inferInstanceAs (Decidable (TableReports _ _))
  | .blankLine | .anchor | .lineEnd _ | .tableBegin _ | .tableRow _ _ =>
      inferInstanceAs (Decidable True)

/-! ## What a callback notes -/

variable {o : Options} {r : PageRenderer}

/-- A run in the row's inversion. -/
theorem notes_emitHere {t : Span} (h : BlanksCarried o t r.toLayout) :
    Notes r (r.emitHere o t) (runHoles o t r.toLayout) :=
  notes_emitRun h

/-- Drawing a field notes nothing. -/
theorem missing_textField (f : Field) (s : Style) (r : PageRenderer) :
    (r.textField o f s).missing = r.missing := by
  have hcells : ∀ (n vk : Nat) (r : PageRenderer), (fieldCells f s n vk r).missing = r.missing := by
    intro n
    induction n with
    | zero => exact fun _ _ => rfl
    | succ n ih =>
      intro vk r
      rw [fieldCells]
      split
      · rfl
      · exact (ih _ _).trans (missing_paint _ r)
  exact (hcells _ _ _).trans (missing_paint _ r)

/-- Nor does its box. -/
theorem missing_labelStart (f : Field) (s : Style) (r : PageRenderer) :
    (labelStart f s r).missing = r.missing := by
  show ((r.setDepth s).freshRow.drawBox f).missing = r.missing
  rw [drawBox]
  split <;> rfl

/-- Nor does the end of a line. -/
theorem missing_onLineEnd (s : Style) (r : PageRenderer) :
    (r.onLineEnd o s).missing = r.missing := by
  show ((((r.setDepth s).drawHeadRule o s).newline o).headGap s _).missing = r.missing
  have hrule : ((r.setDepth s).drawHeadRule o s).missing = r.missing := by
    rw [drawHeadRule]
    split
    · exact missing_paint _ _
    · rfl
  rw [headGap]
  split
  · exact hrule
  · exact hrule

/-- **A table with nothing to draw has no holes.** -/
theorem tableHoles_of_nothingDrawn (hnone : NothingDrawn r) (h : TableReports o r.fitTable) :
    tableHoles o r.fitTable = [] := by
  have hrows : r.fitTable.tRows = r.tRows := rfl
  have hcols : r.fitTable.tableCols = r.tableCols := rfl
  refine List.flatMap_eq_nil_iff.mpr fun row hrow => List.flatMap_eq_nil_iff.mpr fun c hc => ?_
  have hrow' := List.mem_range.mp hrow
  have hc' := List.mem_range.mp hc
  rcases hnone with (hzero | hzero) | hscale
  · rw [hrows, hzero] at hrow'
    exact absurd hrow' (Nat.not_lt_zero row)
  · rw [hcols, hzero] at hc'
    exact absurd hc' (Nat.not_lt_zero c)
  · -- no column has a width, so no cell is laid out
    obtain ⟨-, hsum⟩ := Bool.and_eq_true_iff.mp hscale
    have hsum' := beq_iff_eq.mp hsum
    have hw : r.fitTable.colW c = 0 := by
      have hcapped : r.fitTable.colW = r.capped (tableAvail r.toLayout) := by
        show (r.fit (tableAvail r.toLayout)).colW = _
        rw [TableState.fit]
        exact if_neg fun hfit => hfit.2 hsum'
      rw [hcapped]
      exact Nat.le_zero.mp (hsum' ▸ le_sumCols (hcols ▸ hc'))
    rcases h.cells row hrow' c hc' with ⟨-, hpos, -⟩ | ⟨hnil, -⟩
    · omega
    · exact hnil

/-- A divider notes its fill. -/
theorem notes_onDivider {ch : UInt32} {s : Style}
    (h : (r.setDepth s).freshRow.rowVisible = true ∨ (glyphFor o.fonts ch).isSome = true) :
    Notes r (r.onDivider o ch s) (unseen (fun cp => (glyphFor o.fonts cp).isSome) [ch]) := by
  rw [onDivider, drawDivider]
  rcases h with hv | hhas
  · rw [if_pos hv]
    exact .after rfl ((notes_noteUnless (fun cp => (glyphFor o.fonts cp).isSome) ch
      (r.setDepth s).freshRow).before rfl)
  · rw [unseen_carried hhas, noteUnless, if_pos hhas]
    refine .of_eq ?_
    split <;> rfl

/-- A field notes the holes of its label. -/
theorem notes_onField {f : Field} {s : Style} (h : StepReports o r (.field f s)) :
    Notes r (r.onField o f s) (holes o r (.field f s)) := by
  rw [holes, onField]
  by_cases hnone : f.kind = .text ∨ f.label.len = 0
  · rw [if_pos hnone]
    refine .of_eq ?_
    split
    · exact missing_textField f s _
    next hkind =>
      rw [boxField, boxLabel, if_pos (hnone.resolve_left hkind)]
      exact missing_labelStart f s r
  · obtain ⟨hspace, hlabel⟩ := Or.resolve_left h hnone
    obtain ⟨hkind, hlen⟩ := not_or.mp hnone
    rw [if_neg hnone, if_neg hkind, boxField, boxLabel, if_neg hlen]
    exact .after (missing_labelStart f s r)
      ((notes_emitHere hspace).trans (notes_emitHere hlabel))

/-- A table notes the holes of its slices, which are those of its cells. -/
theorem notes_onTableEnd {s : Style} (h : TableReports o (r.setDepth s).fitTable) :
    Notes r (r.onTableEnd o s) (laid o r (.tableEnd s)) ∧
      (laid o r (.tableEnd s)).Perm (tableHoles o (r.setDepth s).fitTable) := by
  rw [laid, onTableEnd, tableFlush]
  by_cases hnone : NothingDrawn (r.setDepth s)
  · rw [if_pos hnone, tableHoles_of_nothingDrawn hnone h]
    refine ⟨.of_eq ?_, .refl _⟩
    split_ifs with hrows hscale
    · rfl
    · rfl
    · exact absurd hnone (not_or.mpr ⟨hrows, hscale⟩)
  · obtain ⟨hrows, hscale⟩ := not_or.mp hnone
    rw [if_neg hnone, if_neg hrows, if_neg hscale]
    exact ⟨.after (s := (r.setDepth s).fitTable) rfl (notes_drawTable h), tableLaid_perm h.cells⟩

/-- **A callback notes its holes.** -/
theorem notes_step {c : Callback} (h : StepReports o r c) :
    Notes r (r.step o c) (laid o r c) ∧ (laid o r c).Perm (holes o r c) := by
  cases c with
  | text t s => exact ⟨.after rfl (notes_emitHere h), .refl _⟩
  | link label target s => exact ⟨.after rfl ((notes_emitHere h).before rfl), .refl _⟩
  | divider ch s => exact ⟨notes_onDivider h, .refl _⟩
  | field f s => exact ⟨notes_onField h, .refl _⟩
  | image alt url s =>
    exact ⟨.after rfl ((notes_emitHere h.1).trans (notes_emitHere h.2)), .refl _⟩
  | part url s =>
    exact ⟨.after rfl ((notes_emitHere h.1).trans (.after rfl ((notes_emitHere h.2).before rfl))),
      .refl _⟩
  | tableEnd s => exact notes_onTableEnd h
  | blankLine =>
    refine ⟨.of_eq ?_, .refl _⟩
    show (r.blankLine o).missing = r.missing
    rw [blankLine]
    split <;> rfl
  | lineEnd s => exact ⟨.of_eq (missing_onLineEnd s r), .refl _⟩
  | anchor => exact ⟨.of_eq rfl, .refl _⟩
  | tableBegin s => exact ⟨.of_eq rfl, .refl _⟩
  | tableRow row s => exact ⟨.of_eq rfl, .refl _⟩

/-! ## The holes of a page -/

variable {s : PageRenderer}

/-- A run has the same holes wherever it is. -/
theorem Flat.runHoles_eq (h : Flat r s) (t : Span) :
    runHoles o t s.toLayout = runHoles o t r.toLayout := by
  rw [h.layout_eq]
  rfl

/-- So does a slice. -/
theorem Flat.sliceHoles_eq (h : Flat r s) : sliceHoles o s = sliceHoles o r := by
  funext row ln c
  rw [sliceHoles, sliceHoles, h.table_eq, h.layout_eq]
  rfl

/-- So does a cell. -/
theorem Flat.cellHoles_eq (h : Flat r s) : cellHoles o s = cellHoles o r := by
  funext row c
  rw [cellHoles, cellHoles, h.table_eq, h.layout_eq]
  rfl

/-- The label of a box begins alike. -/
theorem Flat.labelStart (h : Flat r s) (f : Field) (st : Style) :
    Flat (labelStart f st r) (labelStart f st s) := by
  rw [Thicket.Page.labelStart, Thicket.Page.labelStart, drawBox_freshRow, drawBox_freshRow]
  exact paired_flat.piece (paired_flat.startRow h st) trivial _

/-- **A callback has the same holes wherever it is.** -/
theorem Flat.holes_eq (h : Flat r s) (c : Callback) : holes o s c = holes o r c := by
  cases c with
  | text t st =>
    exact Flat.runHoles_eq (paired_flat.edit
      (f := fun l => (openText o t st { r with toLayout := l }).toLayout) h
      ⟨fun _ _ _ => rfl, fun _ _ => rfl, fun _ _ => rfl⟩) t
  | link label target st => exact (paired_flat.startRow h st).runHoles_eq label
  | field f st =>
    have hstart := h.labelStart f st
    have hlabel := paired_flat.emitHere (o := o) (.ofList [0x20]) hstart
    rw [holes, holes, hstart.runHoles_eq, hlabel.runHoles_eq]
  | image alt url st =>
    have hdepth := paired_flat.setDepth h st
    have htag := paired_flat.emitHere (o := o) imageTag hdepth
    rw [holes, holes, hdepth.runHoles_eq, htag.runHoles_eq]
  | part url st =>
    have hdepth := paired_flat.setDepth h st
    have hlink := paired_flat.startRow (paired_flat.emitHere (o := o) partialTag hdepth) st
    rw [holes, holes, hdepth.runHoles_eq, hlink.runHoles_eq]
  | tableEnd st =>
    have hfit := (paired_flat.setDepth h st).fitTable
    rw [holes, holes, tableHoles, tableHoles, hfit.cellHoles_eq, hfit.table_eq]
  | divider ch st => rfl
  | blankLine => rfl
  | anchor => rfl
  | lineEnd st => rfl
  | tableBegin st => rfl
  | tableRow row st => rfl

/-- **A callback lays them out in the same order.** -/
theorem Flat.laid_eq (h : Flat r s) (c : Callback) : laid o s c = laid o r c := by
  cases c with
  | tableEnd st =>
    have hdepth := paired_flat.setDepth h st
    have hfit := hdepth.fitTable
    have hnone : NothingDrawn (s.setDepth st) ↔ NothingDrawn (r.setDepth st) := by
      rw [NothingDrawn, NothingDrawn, hdepth.tableAvail_eq, hdepth.table_eq]
    have hlaid : tableLaid o (s.setDepth st).fitTable = tableLaid o (r.setDepth st).fitTable := by
      rw [tableLaid, tableLaid, hfit.sliceHoles_eq, hfit.table_eq]
    rw [laid, laid, hlaid]
    exact if_congr hnone rfl rfl
  | text t st => exact h.holes_eq (.text t st)
  | link label target st => exact h.holes_eq (.link label target st)
  | field f st => exact h.holes_eq (.field f st)
  | image alt url st => exact h.holes_eq (.image alt url st)
  | part url st => exact h.holes_eq (.part url st)
  | divider ch st => rfl
  | blankLine => rfl
  | anchor => rfl
  | lineEnd st => rfl
  | tableBegin st => rfl
  | tableRow row st => rfl

/-- **The holes of a page**: those of its callbacks, when the whole page is shown. -/
def pageHoles (o : Options) (r : PageRenderer) (cs : List Callback) : List UInt32 :=
  Runs.outputs (step o) (holes o) r.beginWhole cs

/-- They are those of the pass at any offset. -/
theorem outputs_holes (r : PageRenderer) (scroll : UInt16) (cs : List Callback) :
    Runs.outputs (step o) (holes o) (r.begin scroll) cs = pageHoles o r cs :=
  Runs.outputs_simulation Flat (fun _ _ c h => h.step c) (fun _ _ c h => (h.holes_eq c).symm)
    (flat_beginWhole scroll r) cs

/-- Their order is that of the pass at any other offset. -/
theorem outputs_laid (r : PageRenderer) (a b : UInt16) (cs : List Callback) :
    Runs.outputs (step o) (laid o) (r.begin a) cs
      = Runs.outputs (step o) (laid o) (r.begin b) cs :=
  Runs.outputs_simulation Flat (fun _ _ c h => h.step c) (fun _ _ c h => (h.laid_eq c).symm)
    (flat_begin a b r) cs

/-- **What a pass notes** are its holes. -/
theorem notes_steps {cs : List Callback} (h : Runs.Along (step o) (StepReports o) r cs) :
    Notes r (Runs.run (step o) r cs) (Runs.outputs (step o) (laid o) r cs) ∧
      (Runs.outputs (step o) (laid o) r cs).Perm (Runs.outputs (step o) (holes o) r cs) := by
  induction cs generalizing r with
  | nil => exact ⟨.of_eq rfl, .refl _⟩
  | cons c cs ih =>
    obtain ⟨hnotes, hperm⟩ := notes_step h.1
    obtain ⟨hrest, hrestperm⟩ := ih h.2
    exact ⟨hnotes.trans hrest, hperm.append hrestperm⟩

/-! ## The table of the report -/

/-- **The report stands for the tally of what was noted**, its counters reduced to their widths. -/
structure StandsFor (m : MissingGlyphs) (t : Tally UInt32) (n : Nat) : Prop where
  /-- The kinds. -/
  kinds_eq : m.kinds = t.kinds.map fun k => (k.1, UInt16.ofNat k.2)
  /-- Whether there were more. -/
  over_eq : m.missingOver = t.overflowed
  /-- The total. -/
  total_eq : m.total = UInt32.ofNat n

/-- One more codepoint. -/
theorem StandsFor.note {m : MissingGlyphs} {t : Tally UInt32} {n : Nat} (h : StandsFor m t n)
    (cp : UInt32) : StandsFor (m.note cp) (t.note maxMissing cp) (n + 1) := by
  have hany : m.kinds.any (·.1 == cp) = t.kinds.any (·.1 == cp) := by
    rw [h.kinds_eq, List.any_map]
    rfl
  have hlength : m.kinds.length = t.kinds.length := by rw [h.kinds_eq, List.length_map]
  have htotal : m.total + 1 = UInt32.ofNat (n + 1) := by
    rw [h.total_eq, UInt32.ofNat_add]
    rfl
  rw [MissingGlyphs.note, Tally.note, hany, hlength]
  split_ifs
  · refine ⟨?_, h.over_eq, htotal⟩
    show m.kinds.map _ = (t.kinds.map _).map _
    rw [h.kinds_eq, List.map_map, List.map_map]
    refine List.map_congr_left fun k _ => ?_
    simp only [Function.comp_apply]
    split
    · rw [UInt16.ofNat_add]
      rfl
    · rfl
  · refine ⟨?_, h.over_eq, htotal⟩
    show m.kinds ++ _ = (t.kinds ++ _).map _
    rw [h.kinds_eq, List.map_append]
    rfl
  · exact ⟨h.kinds_eq, rfl, htotal⟩

/-- All that is noted. -/
theorem StandsFor.notes {m : MissingGlyphs} {t : Tally UInt32} {n : Nat} (h : StandsFor m t n)
    (cps : List UInt32) : StandsFor (cps.foldl (fun m cp => m.note cp) m)
      (cps.foldl (Tally.note maxMissing) t) (n + cps.length) := by
  induction cps generalizing m t n with
  | nil => exact h
  | cons cp cps ih =>
    rw [List.length_cons, Nat.add_comm cps.length 1, ← Nat.add_assoc]
    exact ih (h.note cp)

/-- **The report of a page with these holes**, in whatever order they are noted. -/
structure ReportsPage (holes : List UInt32) (m : MissingGlyphs) : Prop where
  /-- The total is their number. -/
  total_eq : m.total.toNat = holes.length
  /-- No kind is listed twice. -/
  nodup : (m.kinds.map Prod.fst).Nodup
  /-- There are at most 24. -/
  length_le : m.kinds.length ≤ maxMissing
  /-- A kind that is listed occurred as often as its counter says. -/
  count_eq : ∀ k ∈ m.kinds, k.1 ∈ holes ∧ k.2.toNat = holes.count k.1
  /-- There were more iff more kinds occurred. -/
  over_iff : m.missingOver = true ↔ maxMissing < holes.toFinset.card
  /-- If not, the counters sum to the total. -/
  sum_eq : m.missingOver = false → (m.kinds.map fun k => k.2.toNat).sum = m.total.toNat

/-- **The report of a tally**, while the counters hold it. -/
theorem StandsFor.reportsPage {m : MissingGlyphs} {t : Tally UInt32} {noted holes : List UInt32}
    (hstands : StandsFor m t noted.length) (hcount : Tally.Counts maxMissing noted t)
    (hperm : noted.Perm holes) (htotal : holes.length < 2 ^ 32)
    (hcounts : ∀ cp, holes.count cp < 2 ^ 16) : ReportsPage holes m := by
  have hnames : m.kinds.map Prod.fst = t.names := by
    rw [hstands.kinds_eq, List.map_map]
    rfl
  have htotal_eq : m.total.toNat = holes.length := by
    rw [hstands.total_eq, hperm.length_eq]
    exact UInt32.toNat_ofNat_of_lt' htotal
  have hsmall : ∀ k ∈ t.kinds, (UInt16.ofNat k.2).toNat = k.2 := by
    intro k hk
    have hlt := hcounts k.1
    rw [← hperm.count_eq, ← (hcount.count_eq k hk).2] at hlt
    exact UInt16.toNat_ofNat_of_lt' hlt
  refine ⟨htotal_eq, hnames ▸ hcount.nodup, ?_, fun k hk => ?_, ?_, fun hover => ?_⟩
  · rw [hstands.kinds_eq, List.length_map]
    exact hcount.length_le
  · rw [hstands.kinds_eq] at hk
    obtain ⟨p, hp, rfl⟩ := List.mem_map.mp hk
    obtain ⟨hmem, heq⟩ := hcount.count_eq p hp
    exact ⟨hperm.mem_iff.mp hmem, (hsmall p hp).trans (heq.trans (hperm.count_eq _))⟩
  · rw [hstands.over_eq, hcount.over_iff, List.toFinset_eq_of_perm _ _ hperm]
  · rw [hstands.over_eq] at hover
    have hsum := hcount.sum_eq hover
    rw [htotal_eq, ← hperm.length_eq, ← hsum, hstands.kinds_eq, List.map_map]
    exact congrArg List.sum (List.map_congr_left hsmall)

/-- **The report of what was noted.** -/
theorem reportsPage_of_notes {noted holes : List UInt32} (hperm : noted.Perm holes)
    (htotal : holes.length < 2 ^ 32) (hcounts : ∀ cp, holes.count cp < 2 ^ 16) :
    ReportsPage holes (noted.foldl (fun m cp => m.note cp) {}) := by
  have hstands : StandsFor (noted.foldl (fun m cp => m.note cp) {})
      (noted.foldl (Tally.note maxMissing) {}) (0 + noted.length) :=
    StandsFor.notes ⟨rfl, rfl, rfl⟩ noted
  rw [Nat.zero_add] at hstands
  exact hstands.reportsPage (Tally.counts_nil.foldl noted) hperm htotal hcounts

/-! ## The report of a pass -/

/-- **The report describes the page**: it is the tally of the holes of the page, and the same for
every offset at which the condition is met. -/
theorem report_describes_page {o : Options} {r : PageRenderer} {scroll : UInt16}
    {cs : List Callback} (h : Runs.Along (step o) (StepReports o) (r.begin scroll) cs)
    (htotal : (pageHoles o r cs).length < 2 ^ 32)
    (hcounts : ∀ cp, (pageHoles o r cs).count cp < 2 ^ 16) :
    ReportsPage (pageHoles o r cs) (Runs.run (step o) (r.begin scroll) cs).missing ∧
      ∀ scroll', Runs.Along (step o) (StepReports o) (r.begin scroll') cs →
        (Runs.run (step o) (r.begin scroll') cs).missing
          = (Runs.run (step o) (r.begin scroll) cs).missing := by
  obtain ⟨hnotes, hperm⟩ := notes_steps h
  refine ⟨?_, fun scroll' h' => ?_⟩
  · rw [outputs_holes] at hperm
    rw [hnotes]
    exact reportsPage_of_notes hperm htotal hcounts
  · -- the same is noted in the same order
    rw [hnotes, (notes_steps h').1, outputs_laid r scroll' scroll]
    rfl

/-- A letter and an arrow, a divider, and a table with another arrow. -/
def arrowPage : List Callback :=
  [.text (.ofList [0x41, 0xE2, 0x86, 0x92]) {}, .lineEnd {}, .divider 0x4E2D {}, .lineEnd {},
    .tableBegin {}, .tableRow (.ofList [0x7C, 0xE2, 0x86, 0x92, 0x7C, 0x41, 0x7C]) {},
    .tableEnd {}]

/-- Two arrows and the fill, at the top of the page. -/
theorem arrow_page_reported :
    pageHoles { fonts := Display.blankFonts } (fresh fun _ => 0) arrowPage
      = [0x2192, 0x4E2D, 0x2192] ∧
    ReportsPage (pageHoles { fonts := Display.blankFonts } (fresh fun _ => 0) arrowPage)
      (Runs.run (step { fonts := Display.blankFonts }) ((fresh fun _ => 0).begin 0)
        arrowPage).missing := by
  have hholes : pageHoles { fonts := Display.blankFonts } (fresh fun _ => 0) arrowPage
      = [0x2192, 0x4E2D, 0x2192] := by decide +kernel
  have hlength : ∀ cp,
      (pageHoles { fonts := Display.blankFonts } (fresh fun _ => 0) arrowPage).count cp ≤ 3 := by
    intro cp
    rw [hholes]
    exact List.count_le_length
  refine ⟨hholes, (report_describes_page (by decide +kernel) ?_ fun cp => ?_).1⟩
  · rw [hholes]
    decide
  · exact (hlength cp).trans_lt (by decide)

/-- **A divider out of sight is not reported**: scrolled by a line, the page has lost its fill. -/
theorem divider_out_of_sight :
    ¬ ReportsPage
      (pageHoles { fonts := Display.blankFonts } (fresh fun _ => 0) [.divider 0x4E2D {}])
      (Runs.run (step { fonts := Display.blankFonts }) ((fresh fun _ => 0).begin 15)
        [.divider 0x4E2D {}]).missing := by
  intro h
  have hholes : pageHoles { fonts := Display.blankFonts } (fresh fun _ => 0) [.divider 0x4E2D {}]
      = [0x4E2D] := by decide
  have hnone : (Runs.run (step { fonts := Display.blankFonts }) ((fresh fun _ => 0).begin 15)
      [.divider 0x4E2D {}]).missing.total = 0 := by decide
  have htotal := h.total_eq
  rw [hholes, hnone] at htotal
  cases htotal

end Thicket.Page
