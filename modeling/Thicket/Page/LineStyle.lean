import Thicket.Page.Dress
import Thicket.Page.Height
import Thicket.Page.Lockstep

/-! # Style across lines

`onLineEnd` resets the face, the weight and the inversion of a row. What only `onText` writes, the
text style, and the pen stay: a line that is opened by something else than a text, and that reads
them, is drawn in the style of an earlier line. -/

namespace Thicket.Page

open Thicket.Lcd Thicket.Page.Span

/-- What may stand on a line. -/
def Callback.onLine : Callback → Bool
  | .text .. | .link .. | .divider .. | .field .. | .image .. | .part .. => true
  | _ => false

/-- **A line that does not read the text style** before a text writes it: dividers, text fields and
boxes without a label come first. -/
def StyleUnread : List Callback → Prop
  | [] => True
  | .text .. :: _ => True
  | .divider .. :: cs => StyleUnread cs
  | .field f _ :: cs => (f.kind = .text ∨ f.label.len = 0) ∧ StyleUnread cs
  | _ => False

/-- **A line that does not read the pen** of the line before: it does not begin with an image or a
partial. -/
def PenUnread : List Callback → Prop
  | .image .. :: _ | .part .. :: _ => False
  | _ => True

/-- A row that has just been ended. -/
structure AtLineEnd (r : PageRenderer) : Prop where
  /-- Nothing is on the row. -/
  rowOpen_eq : r.rowOpen = false
  /-- It is a body row. -/
  head_eq : r.head = .none
  /-- Of the body's height. -/
  ownRowH_eq : r.ownRowH = 0
  /-- Not bold. -/
  bold_eq : r.bold = false
  /-- Not inverted. -/
  invert_eq : r.invert = false
  /-- Without a rule. -/
  headRule_eq : r.headRule = false

namespace PageRenderer

variable {o : Options} {r s : PageRenderer}

/-- A line ends with a closed body row. -/
theorem atLineEnd_onLineEnd (st : Style) (r : PageRenderer) : AtLineEnd (r.onLineEnd o st) := by
  refine ⟨?_, rfl, rfl, rfl, rfl, rfl⟩
  show (((((r.setDepth st).drawHeadRule o st).newline o).headGap st
    (r.head == Head.h1))).rowOpen = false
  rw [headGap]
  split <;> rfl

/-- The pen of an ended row is at the left edge of its depth. -/
theorem x_onLineEnd (st : Style) (r : PageRenderer) :
    (r.onLineEnd o st).x = UInt16.ofNat (marginX + min st.depth.toNat maxDepth * indentPx) := by
  have hrule : (((r.setDepth st).drawHeadRule o st).newline o).x
      = UInt16.ofNat (marginX + min st.depth.toNat maxDepth * indentPx) := by
    rw [drawHeadRule]
    split
    · rw [paint]
      split <;> rfl
    · rfl
  show ((((r.setDepth st).drawHeadRule o st).newline o).headGap st (r.head == Head.h1)).x = _
  rw [headGap]
  split
  · exact hrule
  · exact hrule

/-! ## What is overwritten -/

/-- Every callback of a line sets the depth. -/
theorem step_depth {c : Callback} (hc : c.onLine = true) (d : UInt8) (r : PageRenderer) :
    PageRenderer.step o { r with depth := d } c = r.step o c := by
  cases c <;> first | rfl | cases hc

/-- A closed row restarts at the left edge, wherever the pen is. -/
theorem freshRow_pen (h : r.rowOpen = false) (x : UInt16) :
    freshRow { r with x := x } = r.freshRow := by
  simp [freshRow, h, Layout.leftEdge]

/-- **On a closed row the pen is overwritten**, but for images and partials. -/
theorem step_pen {c : Callback} {cs : List Callback} (hc : c.onLine = true)
    (hpen : PenUnread (c :: cs)) (h : r.rowOpen = false) (x : UInt16) :
    PageRenderer.step o { r with x := x } c = r.step o c := by
  have hrow (st : Style) : freshRow (setDepth st { r with x := x }) = (r.setDepth st).freshRow :=
    freshRow_pen (r := r.setDepth st) h x
  cases c with
  | text t st =>
    have hstart : freshRow (startText st { r with x := x }) = (r.startText st).freshRow :=
      freshRow_pen (r := r.startText st) h x
    simp only [step, onText, openText, hstart]
  | link label target st => simp only [step, onLink, hrow]
  | divider ch st => simp only [step, onDivider, hrow]
  | field f st => simp only [step, onField, hrow]
  | image => exact hpen.elim
  | part => exact hpen.elim
  | _ => cases hc

/-! ## Two histories -/

variable {k : Prop} {b c : List Entry}

/-- The callbacks of a line are kept in lockstep. -/
theorem lockstep_step (h : Lockstep k b c r s) {cb : Callback} (hcb : cb.onLine = true) :
    Lockstep k b c (r.step o cb) (s.step o cb) := by
  cases cb with
  | text t st => exact Lockstep.paired.onText t h st
  | link label target st => exact h.onLink label target st
  | divider ch st => exact Lockstep.paired.onDivider h ch st
  | field f st => exact Lockstep.paired.onField h f st
  | image alt url st => exact Lockstep.paired.onImage h alt url st
  | part url st => exact h.onPartial url st
  | _ => cases hcb

/-- **A line is kept in lockstep.** -/
theorem lockstep_line {cs : List Callback} (hcs : ∀ cb ∈ cs, cb.onLine = true)
    (h : Lockstep k b c r s) :
    Lockstep k b c (Runs.run (step o) r cs) (Runs.run (step o) s cs) := by
  induction cs generalizing r s with
  | nil => exact h
  | cons cb cs ih =>
    exact ih (fun d hd => hcs d (List.mem_cons_of_mem cb hd))
      (lockstep_step h (hcs cb List.mem_cons_self))

/-- Renderers in lockstep are dressed alike. -/
theorem lockstep_dress (h : Lockstep k b c r s) : Lockstep k b c r (s.dress r.toLayout) := by
  have hs : s.dress r.toLayout = s := by
    rw [dress, Layout.dress_eq]
    · rw [h.layout_eq]
      exact ⟨rfl, rfl⟩
    · rw [h.layout_eq]
    · rw [h.layout_eq]
      exact ⟨rfl, rfl, rfl, rfl⟩
  rw [hs]
  exact h

/-- A callback that does not read the text style keeps the dress, and does not read it. -/
theorem bare_of_unread {cb : Callback} {cs : List Callback} (hun : StyleUnread (cb :: cs))
    (htext : ∀ t st, cb ≠ .text t st) :
    cb.Bare ∧ cb.keepsDress = true ∧ StyleUnread cs := by
  cases cb with
  | text t st => exact absurd rfl (htext t st)
  | divider => exact ⟨trivial, rfl, hun⟩
  | field => exact ⟨hun.1, rfl, hun.2⟩
  | _ => exact hun.elim

/-- **A line that does not read the text style** is kept in lockstep but for it. -/
theorem lockstep_unread {cs : List Callback} (hcs : ∀ cb ∈ cs, cb.onLine = true)
    (hun : StyleUnread cs) (hface : SameFace s.toLayout r.toLayout)
    (h : Lockstep k b c r (s.dress r.toLayout)) :
    Lockstep k b c (Runs.run (step o) r cs)
      ((Runs.run (step o) s cs).dress (Runs.run (step o) r cs).toLayout) := by
  induction cs generalizing r s with
  | nil => exact h
  | cons cb cs ih =>
    have hcs' : ∀ d ∈ cs, d.onLine = true := fun d hd => hcs d (List.mem_cons_of_mem cb hd)
    have hstep := lockstep_step (o := o) h (hcs cb List.mem_cons_self)
    by_cases htext : ∃ t st, cb = .text t st
    · -- from here on the styles agree
      obtain ⟨t, st, rfl⟩ := htext
      rw [step_text_dress (.inl hface)] at hstep
      rw [Runs.run_cons, Runs.run_cons]
      exact lockstep_dress (lockstep_line hcs' hstep)
    · -- a callback that reads no style leaves it as different as it was
      obtain ⟨hbare, hkeeps, hrest⟩ := bare_of_unread hun fun t st heq => htext ⟨t, st, heq⟩
      have hr := keepsDress_step (o := o) hkeeps r
      have hs := keepsDress_step (o := o) hkeeps s
      rw [step_dress hbare fun _ => hface.ownRowH_eq] at hstep
      refine ih hcs' hrest ?_ ?_
      · rw [hr.layout_eq, hs.layout_eq]
        exact ⟨hface.head_eq, hface.ownRowH_eq⟩
      · rw [dress, hr.dress_eq]
        exact hstep

/-- What is drawn in lockstep is the same. -/
theorem newOps_eq {r' s' : PageRenderer} (h : Lockstep k r.log s.log r' s') :
    newOps r r' = newOps s s' := by
  obtain ⟨m, hr, hs⟩ := h.log_eq
  rw [newOps, newOps, hr, hs, List.drop_left, List.drop_left]

/-- Two closed body rows in lockstep, but for the text style, the pen and the depth. -/
theorem lockstep_of_atLineEnd (hr : AtLineEnd r) (hs : AtLineEnd s) (hy : s.y = r.y)
    (hwindow : s.clip = r.clip ∧ s.scroll = r.scroll) :
    Lockstep False r.log s.log r
      (dress r.toLayout { s with depth := r.depth, x := r.x }) := by
  refine ⟨?_, hwindow, ⟨[], (List.append_nil _).symm, (List.append_nil _).symm⟩, False.elim⟩
  simp [dress, Layout.dress, hy, hr.rowOpen_eq, hs.rowOpen_eq, hr.invert_eq, hs.invert_eq]

/-- **A line is drawn the same after two line ends**, where the text styles agree or are not read,
and the pens agree or are not read. -/
theorem newOps_line (hr : AtLineEnd r) (hs : AtLineEnd s) (hy : s.y = r.y)
    (hwindow : s.clip = r.clip ∧ s.scroll = r.scroll) {cs : List Callback}
    (hcs : ∀ cb ∈ cs, cb.onLine = true) (hstyle : SameStyle r.toLayout s.toLayout ∨ StyleUnread cs)
    (hpen : s.x = r.x ∨ PenUnread cs) :
    newOps r (Runs.run (step o) r cs) = newOps s (Runs.run (step o) s cs) := by
  cases cs with
  | nil => rw [Runs.run_nil, Runs.run_nil, newOps, newOps, List.drop_length, List.drop_length]
  | cons cb cs =>
    have hcb := hcs cb List.mem_cons_self
    -- the first callback overwrites the depth and, or else they agree, the pen
    have hfirst : s.step o cb
        = PageRenderer.step o { s with depth := r.depth, x := r.x } cb := by
      rw [← step_depth hcb r.depth s]
      rcases hpen with hx | hpen
      · rw [← hx]
      · exact (step_pen (r := { s with depth := r.depth }) hcb hpen hs.rowOpen_eq r.x).symm
    have hrun : Runs.run (step o) s (cb :: cs)
        = Runs.run (step o) { s with depth := r.depth, x := r.x } (cb :: cs) := by
      rw [Runs.run_cons, Runs.run_cons, hfirst]
    have hlock := lockstep_of_atLineEnd hr hs hy hwindow
    rw [hrun]
    rcases hstyle with hsame | hun
    · have hself : dress r.toLayout { s with depth := r.depth, x := r.x }
          = { s with depth := r.depth, x := r.x } := by
        rw [dress, Layout.dress_eq]
        · exact ⟨hs.head_eq.trans hr.head_eq.symm, hs.ownRowH_eq.trans hr.ownRowH_eq.symm⟩
        · exact hs.bold_eq.trans hr.bold_eq.symm
        · exact ⟨hsame.literal_eq, hsame.underline_eq, hsame.hasBg_eq, hsame.bgLuma_eq⟩
      rw [hself] at hlock
      exact newOps_eq (s := s) (lockstep_line hcs hlock)
    · -- the text style is not in the log
      obtain ⟨m, hlog, hlog'⟩ := (lockstep_unread (o := o)
        (s := { s with depth := r.depth, x := r.x }) hcs hun
        ⟨hr.head_eq.trans hs.head_eq.symm, hr.ownRowH_eq.trans hs.ownRowH_eq.symm⟩ hlock).log_eq
      have hlog'' : (Runs.run (step o) { s with depth := r.depth, x := r.x } (cb :: cs)).log
          = s.log ++ m := hlog'
      rw [newOps, newOps, hlog, hlog'', List.drop_left, List.drop_left]

/-- **After two histories of a pass**, both ended by `onLineEnd` on the same row, a line is drawn
the same, where it does not read what they differ in: the style of the last text, and the pen at
the left edge of the last depth. -/
theorem newOps_histories (o : Options) (r : PageRenderer) (scroll : UInt16)
    (past past' : List Callback) (st st' : Style) {line : List Callback}
    (hline : ∀ cb ∈ line, cb.onLine = true)
    (hy : (Runs.run (step o) (r.begin scroll) (past' ++ [Callback.lineEnd st'])).y
      = (Runs.run (step o) (r.begin scroll) (past ++ [Callback.lineEnd st])).y)
    (hstyle : SameStyle
        (Runs.run (step o) (r.begin scroll) (past ++ [Callback.lineEnd st])).toLayout
        (Runs.run (step o) (r.begin scroll) (past' ++ [Callback.lineEnd st'])).toLayout ∨
      StyleUnread line)
    (hpen : min st'.depth.toNat maxDepth = min st.depth.toNat maxDepth ∨ PenUnread line) :
    newOps (Runs.run (step o) (r.begin scroll) (past ++ [Callback.lineEnd st]))
        (Runs.run (step o) (r.begin scroll) (past ++ [Callback.lineEnd st] ++ line))
      = newOps (Runs.run (step o) (r.begin scroll) (past' ++ [Callback.lineEnd st']))
        (Runs.run (step o) (r.begin scroll) (past' ++ [Callback.lineEnd st'] ++ line)) := by
  have hwindow (cs : List Callback) : (Runs.run (step o) (r.begin scroll) cs).clip = true ∧
      (Runs.run (step o) (r.begin scroll) cs).scroll = scroll := by
    have hrun := descends_run (o := o) (r.begin scroll) cs
    exact ⟨(hrun.sound (sound_begin r scroll)).clip_eq, hrun.scroll_eq⟩
  have hend (cs : List Callback) (st : Style) :
      AtLineEnd (Runs.run (step o) (r.begin scroll) (cs ++ [Callback.lineEnd st])) := by
    rw [Runs.run_append]
    exact atLineEnd_onLineEnd st _
  have hx (cs : List Callback) (st : Style) :
      (Runs.run (step o) (r.begin scroll) (cs ++ [Callback.lineEnd st])).x
        = UInt16.ofNat (marginX + min st.depth.toNat maxDepth * indentPx) := by
    rw [Runs.run_append]
    exact x_onLineEnd st _
  -- the window is that of `begin` in both, and the pen is at the edge of the last depth
  obtain ⟨hclip, hscroll⟩ := hwindow (past ++ [Callback.lineEnd st])
  obtain ⟨hclip', hscroll'⟩ := hwindow (past' ++ [Callback.lineEnd st'])
  rw [Runs.run_append _ _ _ line, Runs.run_append _ _ _ line]
  refine newOps_line (hend past st) (hend past' st') hy
    ⟨hclip'.trans hclip.symm, hscroll'.trans hscroll.symm⟩ hline hstyle
    (hpen.imp_left fun hdepth => ?_)
  rw [hx past' st', hx past st, hdepth]

/-- A letter, underlined. -/
def underlinedLetter : List Callback := [.text (.ofList [0x61]) { underline := true }]

/-- The same letter, bare. -/
def bareLetter : List Callback := [.text (.ofList [0x61]) {}]

/-- A pass over these callbacks, from the top, without any font. -/
abbrev pass (cs : List Callback) : PageRenderer :=
  Runs.run (step { fonts := Display.blankFonts }) ((fresh fun _ => 0).begin 0) cs

/-- A line that begins with a divider, and a letter of its own style after it. -/
theorem newOps_histories_divider :
    newOps (pass (underlinedLetter ++ [Callback.lineEnd {}]))
      (pass (underlinedLetter ++ [Callback.lineEnd {}]
        ++ [.divider 0x2D {}, .text (.ofList [0x62]) {}]))
    = newOps (pass (bareLetter ++ [Callback.lineEnd {}]))
      (pass (bareLetter ++ [Callback.lineEnd {}]
        ++ [.divider 0x2D {}, .text (.ofList [0x62]) {}])) :=
  newOps_histories _ _ _ underlinedLetter bareLetter {} {} (by decide) (by decide)
    (.inr trivial) (.inr trivial)

/-- **An underline leaks** into a link that begins the next line. -/
theorem underline_leaks :
    ¬ ∀ line : List Callback, (∀ cb ∈ line, cb.onLine = true) →
      (pass (bareLetter ++ [Callback.lineEnd {}])).y
        = (pass (underlinedLetter ++ [Callback.lineEnd {}])).y →
      (pass (bareLetter ++ [Callback.lineEnd {}])).links.boxes.length
        = (pass (underlinedLetter ++ [Callback.lineEnd {}])).links.boxes.length →
      newOps (pass (underlinedLetter ++ [Callback.lineEnd {}]))
        (pass (underlinedLetter ++ [Callback.lineEnd {}] ++ line))
      = newOps (pass (bareLetter ++ [Callback.lineEnd {}]))
        (pass (bareLetter ++ [Callback.lineEnd {}] ++ line)) := by
  intro h
  have hlink := h [.link (.ofList [0x62]) (.ofList [0x62]) {}] (by decide) (by decide) (by decide)
  revert hlink
  decide +kernel

end PageRenderer

end Thicket.Page
