import Thicket.Page.Paired

/-! # Renderers in lockstep

Two renderers with the same layout and the same window do the same: whatever is drawn on one is
drawn on the other, and the layouts stay the same. -/

namespace Thicket.Page

open Thicket.Lcd Thicket.Page.Span

/-- **Two renderers in lockstep** since their logs were `b` and `c`. No line reads `_blank_pending`,
and none reads `_head_rule` before it ends. The links, the holes and `_blank_pending` agree as well
where `k` says so. -/
structure Lockstep (k : Prop) (b c : List Entry) (r s : PageRenderer) : Prop where
  /-- The pen and the style of the row. -/
  layout_eq : s.toLayout
    = { r.toLayout with blankPending := s.blankPending, headRule := s.headRule }
  /-- The window. -/
  window_eq : s.clip = r.clip ∧ s.scroll = r.scroll
  /-- What has happened since. -/
  log_eq : ∃ m, r.log = b ++ m ∧ s.log = c ++ m
  /-- The links on the screen, the holes of the page, and the gap. -/
  reports_eq : k → s.links = r.links ∧ s.missing = r.missing ∧ s.blankPending = r.blankPending

/-- A drawing that looks at neither `_blank_pending` nor `_head_rule`. -/
def Drawing.Plain (d : Drawing) : Prop :=
  ∀ l b h y, d { l with blankPending := b, headRule := h } y = d l y

namespace Lockstep

variable {k : Prop} {b c : List Entry} {r s : PageRenderer} {o : Options}

/-- The rows are alike. -/
theorem sameRow (h : Lockstep k b c r s) : SameRow r.toLayout s.toLayout := by
  rw [SameRow, h.layout_eq]

/-- The rows are at the same height of the page. -/
theorem y_eq (h : Lockstep k b c r s) : s.y = r.y := by rw [h.layout_eq]

/-- The rows are visible or not together. -/
theorem rowVisible_eq (h : Lockstep k b c r s) : s.rowVisible = r.rowVisible := by
  rw [PageRenderer.rowVisible, PageRenderer.rowVisible, h.y_eq, h.window_eq.1, h.window_eq.2]

/-- The rows are at the same height of the screen. -/
theorem screenY_eq (h : Lockstep k b c r s) : s.screenY = r.screenY := by
  rw [PageRenderer.screenY, PageRenderer.screenY, h.y_eq, h.window_eq.2]

/-- The layout is changed. -/
theorem edit (h : Lockstep k b c r s) (f : Layout → Layout)
    (hf : PlainEdit f) :
    Lockstep k b c { r with toLayout := f r.toLayout } { s with toLayout := f s.toLayout } := by
  refine ⟨?_, h.window_eq, h.log_eq, fun hk => ?_⟩
  · show f s.toLayout = { f r.toLayout with
      blankPending := (f s.toLayout).blankPending, headRule := (f s.toLayout).headRule }
    rw [h.layout_eq]
    exact hf.rest_eq r.toLayout s.blankPending s.headRule
  · obtain ⟨hlinks, hmissing, hpending⟩ := h.reports_eq hk
    refine ⟨hlinks, hmissing, ?_⟩
    show (f s.toLayout).blankPending = (f r.toLayout).blankPending
    rw [h.layout_eq, hpending]
    exact hf.pending_eq r.toLayout s.headRule

/-- The table is changed. -/
theorem editTable (h : Lockstep k b c r s) (t u : TableState) :
    Lockstep k b c { r with toTableState := t } { s with toTableState := u } :=
  ⟨h.layout_eq, h.window_eq, h.log_eq, h.reports_eq⟩

/-- Calls on the driver. -/
theorem issue (h : Lockstep k b c r s) {d : Drawing} (hd : d.Plain) :
    Lockstep k b c (r.issue d) (s.issue d) := by
  obtain ⟨m, hr, hs⟩ := h.log_eq
  refine ⟨h.layout_eq, h.window_eq, ⟨m ++ (d r.toLayout r.screenY).map (.draw r.y), ?_, ?_⟩,
    h.reports_eq⟩
  · rw [PageRenderer.issue, hr, List.append_assoc]
  · rw [PageRenderer.issue, hs, h.screenY_eq, h.y_eq, h.layout_eq, hd, List.append_assoc]

/-- Calls under a visibility test. -/
theorem paint (h : Lockstep k b c r s) {d : Drawing} (hd : d.Plain) :
    Lockstep k b c (r.paint d) (s.paint d) := by
  rw [PageRenderer.paint, PageRenderer.paint, h.rowVisible_eq]
  split
  · exact h.issue hd
  · exact h

/-- A row or a gap. -/
theorem down (h : Lockstep k b c r s) (a : Advance) (w : UInt16) :
    Lockstep k b c (r.down a w) (s.down a w) := by
  obtain ⟨m, hr, hs⟩ := h.log_eq
  refine ⟨?_, h.window_eq, ⟨m ++ [.down a], ?_, ?_⟩, h.reports_eq⟩
  · show { s.toLayout with y := s.y + w }
      = { r.toLayout with
          y := r.y + w, blankPending := s.blankPending, headRule := s.headRule }
    rw [h.layout_eq]
  · rw [PageRenderer.down, hr, List.append_assoc]
  · rw [PageRenderer.down, hs, List.append_assoc]

/-- A codepoint is counted. -/
theorem noteUnless (h : Lockstep k b c r s) (has : Bool) (cp : UInt32) :
    Lockstep k b c (r.noteUnless has cp) (s.noteUnless has cp) := by
  refine ⟨h.layout_eq, h.window_eq, h.log_eq, fun hk => ?_⟩
  obtain ⟨hlinks, hmissing, hpending⟩ := h.reports_eq hk
  refine ⟨hlinks, ?_, hpending⟩
  rw [PageRenderer.noteUnless, PageRenderer.noteUnless, hmissing]

/-- **Drawing keeps the lockstep.** -/
theorem paired : Paired Drawing.Plain (Lockstep k b c) where
  clip _ _ _ _ _ _ := rfl
  literal _ _ _ _ _ _ _ := rfl
  broken _ _ _ _ _ _ _ := rfl
  lead _ _ _ _ _ _ _ := rfl
  cell _ _ _ _ _ _ _ := rfl
  divider _ _ _ _ _ := rfl
  bar _ _ _ _ _ _ _ := rfl
  fieldCell _ _ _ _ _ _ _ := rfl
  box _ _ _ _ _ := rfl
  rule _ _ _ _ _ _ := rfl
  sameRow h := h.sameRow
  paint h hd := h.paint hd
  down h a w := h.down a w
  edit h hf := h.edit _ hf
  note h has cp := h.noteUnless has cp
  noteVisible h has cp := by
    rw [h.rowVisible_eq]
    split
    · exact h.noteUnless has cp
    · exact h

/-! ## Callbacks -/

/-- The label of a link, and its box. -/
theorem linkHere (h : Lockstep k b c r s) (label target : Span) :
    Lockstep k b c (r.linkHere o label target) (s.linkHere o label target) := by
  have hlabel := paired.emitHere (o := o) label h
  refine ⟨hlabel.layout_eq, hlabel.window_eq, hlabel.log_eq, fun hk => ?_⟩
  obtain ⟨hlinks, hmissing, hpending⟩ := hlabel.reports_eq hk
  refine ⟨?_, hmissing, hpending⟩
  have hvis : (s.emitHere o label).rowVisible = (r.emitHere o label).rowVisible :=
    hlabel.rowVisible_eq
  simp only [PageRenderer.linkHere, PageRenderer.boxLink, hvis, hlinks, hlabel.sameRow.x_eq,
    hlabel.sameRow.rowH_eq, h.sameRow.x_eq, h.screenY_eq]

/-- `onLink`. -/
theorem onLink (h : Lockstep k b c r s) (label target : Span) (st : Style) :
    Lockstep k b c (r.onLink o label target st) (s.onLink o label target st) :=
  (paired.startRow h st).linkHere label target

/-- `onPartial`. -/
theorem onPartial (h : Lockstep k b c r s) (url : Span) (st : Style) :
    Lockstep k b c (r.onPartial o url st) (s.onPartial o url st) :=
  (paired.emitHere _ (paired.setDepth h st)).onLink _ _ _

/-- `blankLine`, where there is a gap to leave in both or in neither. -/
theorem blankLine (h : Lockstep k b c r s) (hpending : s.blankPending = r.blankPending) :
    Lockstep k b c (r.blankLine o) (s.blankLine o) := by
  rw [PageRenderer.blankLine, PageRenderer.blankLine, hpending]
  split
  · exact h
  · exact (h.down _ _).edit (fun l => { l with blankPending := true })
      ⟨fun _ _ _ => rfl, fun _ _ => rfl, fun _ _ => rfl⟩

end Lockstep

end Thicket.Page
