import Thicket.Page.Advances
import Thicket.Page.Frame

/-! # The height of a page

The true height of a page is the sum of the heights of the rows and gaps that its callbacks lay
out, each by the metrics, as a natural number. `_y` is that height modulo 2^16, and a row that is
drawn lies at or below the scroll offset; so `content_height` and the window are right exactly as
long as the height fits 16 bits. -/

namespace Thicket.Page

open Thicket.Lcd Thicket.Page.Span

/-! ## The true height -/

variable (o : Options)

/-- **The height of rows and gaps**, each by the metrics. -/
def heightOf (as : List Advance) : Nat := (as.map (Advance.height o)).sum

@[simp] theorem heightOf_append (as bs : List Advance) :
    heightOf o (as ++ bs) = heightOf o as + heightOf o bs := by
  simp [heightOf]

/-- The same a number of times. -/
theorem heightOf_replicate (n : Nat) (a : Advance) :
    heightOf o (List.replicate n a) = n * a.height o := by
  induction n with
  | zero => exact (Nat.zero_mul _).symm
  | succ n ih =>
    have hone : heightOf o [a] = a.height o := rfl
    rw [List.replicate_succ', heightOf_append, ih, hone, Nat.succ_mul]

/-- The true height of what was laid out up to the end of a log. -/
def trueHeight (log : List Entry) : Nat := heightOf o (advancesOf log)

@[simp] theorem trueHeight_append (l m : List Entry) :
    trueHeight o (l ++ m) = trueHeight o l + trueHeight o m := by
  simp [trueHeight]

/-- Drawing adds nothing. -/
@[simp] theorem trueHeight_draws (y : UInt16) (ops : List LcdOp) :
    trueHeight o (ops.map (.draw y)) = 0 := by
  simp [trueHeight, heightOf]

@[simp] theorem trueHeight_down (a : Advance) : trueHeight o [.down a] = a.height o := rfl

/-- A page only grows. -/
theorem trueHeight_le_of_isPrefix {l m : List Entry} (h : l <+: m) :
    trueHeight o l ≤ trueHeight o m := by
  obtain ⟨rest, rfl⟩ := h
  rw [trueHeight_append]
  exact Nat.le_add_right _ _

/-- Every row that shows in the window belongs there: its true position is inside it. -/
def DrawnInPlace (scroll : UInt16) (log : List Entry) : Prop :=
  ∀ before top op after, log = before ++ .draw top op :: after →
    (top - scroll).toNat < lcdHeight →
    scroll.toNat ≤ trueHeight o before ∧ trueHeight o before < scroll.toNat + lcdHeight

/-- **The height is exact**, and so is where the rows are drawn, for a page that has laid out these
rows and gaps. -/
structure HeightExact (r : PageRenderer) (as : List Advance) : Prop where
  /-- `content_height` is the sum of their heights. -/
  height_eq : r.contentHeight.toNat = heightOf o as
  /-- No row is drawn into a window that does not contain it. -/
  inPlace : DrawnInPlace o r.scroll r.log

/-! ## The invariant -/

/-- Each drawn row has its true position modulo 2^16, at or below the scroll offset; the log begins
at height `h`. -/
def Anchored (scroll : UInt16) : Nat → List Entry → Prop
  | _, [] => True
  | h, .draw top _ :: log => top = UInt16.ofNat h ∧ scroll.toNat ≤ h ∧ Anchored scroll h log
  | h, .down a :: log => Anchored scroll (h + a.height o) log

variable {o}

/-- Anchored logs, one after the other. -/
theorem anchored_append {scroll : UInt16} {h : Nat} {l m : List Entry} :
    Anchored o scroll h (l ++ m) ↔
      Anchored o scroll h l ∧ Anchored o scroll (h + trueHeight o l) m := by
  induction l generalizing h with
  | nil => exact (and_iff_right trivial).symm
  | cons e l ih =>
    cases e with
    | draw top op =>
      have hzero : trueHeight o (.draw top op :: l) = trueHeight o l := rfl
      simp only [List.cons_append, Anchored, ih, hzero, and_assoc]
    | down a =>
      have hadd : h + trueHeight o (.down a :: l) = h + a.height o + trueHeight o l := by
        simp [trueHeight, heightOf, advancesOf, Nat.add_assoc]
      simp only [List.cons_append, Anchored, ih, hadd]

/-- Draws for a row at its true position are anchored. -/
theorem anchored_draws {scroll : UInt16} {h : Nat} (hs : scroll.toNat ≤ h) (ops : List LcdOp) :
    Anchored o scroll h (ops.map (.draw (UInt16.ofNat h))) := by
  induction ops with
  | nil => trivial
  | cons op ops ih => exact ⟨rfl, hs, ih⟩

variable (o) in
/-- In a pass, `_y` is the true height modulo 2^16 and the rows drawn so far are anchored. -/
structure Sound (r : PageRenderer) : Prop where
  /-- The window is looked at. -/
  clip_eq : r.clip = true
  /-- The pen. -/
  y_eq : r.y = UInt16.ofNat (trueHeight o r.log)
  /-- The rows. -/
  anchored : Anchored o r.scroll 0 r.log

variable (o) in
/-- What a piece of code does to a page: it adds to the log, keeps the scroll offset, and keeps the
invariant. -/
structure Descends (r r' : PageRenderer) : Prop where
  /-- The log grows. -/
  log_isPrefix : r.log <+: r'.log
  /-- The window stays. -/
  scroll_eq : r'.scroll = r.scroll
  /-- The invariant is kept. -/
  sound : Sound o r → Sound o r'

/-- Nothing done. -/
theorem Descends.refl (r : PageRenderer) : Descends o r r := ⟨List.prefix_rfl, rfl, id⟩

/-- One piece after another. -/
theorem Descends.trans {r s t : PageRenderer} (h : Descends o r s) (k : Descends o s t) :
    Descends o r t :=
  ⟨h.log_isPrefix.trans k.log_isPrefix, k.scroll_eq.trans h.scroll_eq, k.sound ∘ h.sound⟩

/-- What leaves the row, the window and the log alone. -/
theorem Descends.of_eq {r r' : PageRenderer} (hc : r'.clip = r.clip) (hy : r'.y = r.y)
    (hs : r'.scroll = r.scroll) (hl : r'.log = r.log) : Descends o r r' := by
  refine ⟨hl ▸ List.prefix_rfl, hs, fun h => ⟨hc.trans h.clip_eq, ?_, ?_⟩⟩
  · rw [hy, hl]
    exact h.y_eq
  · rw [hs, hl]
    exact h.anchored

/-- **Calls for a row** at or below the scroll offset. -/
theorem Descends.issue {r : PageRenderer} (hs : Sound o r → r.scroll.toNat ≤ trueHeight o r.log)
    (d : Drawing) : Descends o r (r.issue d) := by
  refine ⟨List.prefix_append _ _, rfl, fun h => ⟨h.clip_eq, ?_, ?_⟩⟩
  · simp only [PageRenderer.issue, trueHeight_append, trueHeight_draws, Nat.add_zero]
    exact h.y_eq
  · simp only [PageRenderer.issue, anchored_append, h.y_eq, Nat.zero_add]
    exact ⟨h.anchored, anchored_draws (hs h) _⟩

/-- **A row or a gap**: `_y` is moved by its height. -/
theorem Descends.down (r : PageRenderer) {a : Advance} {h : UInt16} (ha : h.toNat = a.height o) :
    Descends o r (r.down a h) := by
  refine ⟨List.prefix_append _ _, rfl, fun hr => ⟨hr.clip_eq, ?_, ?_⟩⟩
  · simp only [PageRenderer.down, trueHeight_append, trueHeight_down, hr.y_eq, ← ha]
    simp
  · simp only [PageRenderer.down, anchored_append]
    exact ⟨hr.anchored, trivial⟩

/-- A visible row lies at or below the scroll offset. -/
theorem Sound.scroll_le {r : PageRenderer} (hr : Sound o r) (hv : r.rowVisible = true) :
    r.scroll.toNat ≤ trueHeight o r.log := by
  simp only [PageRenderer.rowVisible, hr.clip_eq, Bool.not_true, Bool.false_or, Bool.and_eq_true,
    decide_eq_true_eq] at hv
  have hle := hv.1
  rw [hr.y_eq, UInt16.le_iff_toNat_le, UInt16.toNat_ofNat'] at hle
  exact hle.trans (Nat.mod_le _ _)

/-! ## Primitives and runs -/

namespace PageRenderer

variable (t : Span) (invert : Bool)

/-- **Calls under one visibility test**, for the row it was made for or one further down. -/
theorem descends_issue {r s : PageRenderer} (hv : r.rowVisible = true) (h : Descends o r s)
    (d : Drawing) : Descends o r (s.issue d) := by
  refine ⟨h.log_isPrefix.trans (List.prefix_append _ _), h.scroll_eq, fun hr => ?_⟩
  have hle : s.scroll.toNat ≤ trueHeight o s.log :=
    h.scroll_eq ▸ (hr.scroll_le hv).trans (trueHeight_le_of_isPrefix o h.log_isPrefix)
  exact (Descends.issue (fun _ => hle) d).sound (h.sound hr)

/-- **Drawing descends.** -/
theorem frame_descends : Frame o (Descends o) where
  refl := .refl
  trans := .trans
  issue d hv h := descends_issue hv h d
  down _ _ r ha := .down r ha
  pen _ _ _ := .of_eq rfl rfl rfl rfl
  note _ _ _ := .of_eq rfl rfl rfl rfl

/-- The log grows over the cells of a word. -/
theorem isPrefix_emitCells (ks : List Nat) (r : PageRenderer) :
    r.log <+: (Runs.run (emitCell o t invert) r ks).log :=
  (frame_descends.run (frame_descends.emitGlyph t _) r ks).log_isPrefix

/-- The log grows over the cells of a broken word. -/
theorem isPrefix_emitBroken (ks : List Nat) (r : PageRenderer) :
    r.log <+: (Runs.run (emitBrokenCell o t invert) r ks).log :=
  (frame_descends.run (frame_descends.emitBrokenCell t invert) r ks).log_isPrefix

/-- The log grows over the words of a run. -/
theorem isPrefix_emitWords (ws : List Word) (r : PageRenderer) :
    r.log <+: (Runs.run (emitWord o t invert) r ws).log :=
  (frame_descends.run (frame_descends.emitWord t invert) r ws).log_isPrefix

/-- A run in the row's inversion. -/
theorem descends_emitHere (r : PageRenderer) : Descends o r (r.emitHere o t) :=
  frame_descends.emitRun t r.invert r

/-! ## Callbacks -/

/-- `onText`: only its run draws. -/
theorem descends_onText (s : Style) (r : PageRenderer) : Descends o r (r.onText o t s) :=
  Descends.trans (s := r.openText o t s) (.of_eq rfl rfl rfl rfl) (descends_emitHere t _)

/-- `onLink`: only its label draws. -/
theorem descends_onLink (label target : Span) (s : Style) (r : PageRenderer) :
    Descends o r (r.onLink o label target s) :=
  Descends.trans (s := (r.setDepth s).freshRow) (.of_eq rfl rfl rfl rfl)
    ((descends_emitHere label _).trans (.of_eq rfl rfl rfl rfl))

/-- `onDivider`. -/
theorem descends_onDivider (ch : UInt32) (s : Style) (r : PageRenderer) :
    Descends o r (r.onDivider o ch s) :=
  Descends.trans (s := (r.setDepth s).freshRow) (.of_eq rfl rfl rfl rfl)
    ((frame_descends.drawDivider ch _).trans (.of_eq rfl rfl rfl rfl))

/-- `onField`. -/
theorem descends_onField (f : Field) (s : Style) (r : PageRenderer) :
    Descends o r (r.onField o f s) := by
  refine Descends.trans (s := (r.setDepth s).freshRow) (.of_eq rfl rfl rfl rfl) ?_
  rw [onField]
  split
  · exact frame_descends.textField f s _
  · exact frame_descends.boxField f _

/-- `onLineEnd`. -/
theorem descends_onLineEnd (s : Style) (r : PageRenderer) : Descends o r (r.onLineEnd o s) :=
  Descends.trans (s := r.setDepth s) (.of_eq rfl rfl rfl rfl)
    ((frame_descends.headGap s _ _).trans (.of_eq rfl rfl rfl rfl))

/-- `onImage`. -/
theorem descends_onImage (alt url : Span) (s : Style) (r : PageRenderer) :
    Descends o r (r.onImage o alt url s) :=
  Descends.trans (s := r.setDepth s) (.of_eq rfl rfl rfl rfl)
    ((descends_emitHere _ _).trans (descends_emitHere _ _))

/-- `onPartial`. -/
theorem descends_onPartial (url : Span) (s : Style) (r : PageRenderer) :
    Descends o r (r.onPartial o url s) :=
  Descends.trans (s := r.setDepth s) (.of_eq rfl rfl rfl rfl)
    ((descends_emitHere _ _).trans (descends_onLink url url s _))

/-- `onTableEnd`. -/
theorem descends_onTableEnd (s : Style) (r : PageRenderer) : Descends o r (r.onTableEnd o s) := by
  refine Descends.trans (s := r.setDepth s) (.of_eq rfl rfl rfl rfl) ?_
  rw [onTableEnd, tableFlush]
  split_ifs
  · exact .refl _
  · exact .of_eq rfl rfl rfl rfl
  · exact Descends.trans (s := (r.setDepth s).fitTable) (.of_eq rfl rfl rfl rfl)
      (frame_descends.drawTable _)

/-- **One callback.** -/
theorem descends_step (r : PageRenderer) (c : Callback) : Descends o r (r.step o c) := by
  cases c with
  | blankLine =>
    show Descends o r (r.blankLine o)
    unfold blankLine
    split
    · exact .refl r
    · exact (Descends.down r (a := .blankGap) rfl).trans (.of_eq rfl rfl rfl rfl)
  | text t s => exact descends_onText t s r
  | link label target s => exact descends_onLink label target s r
  | divider ch s => exact descends_onDivider ch s r
  | field f s => exact descends_onField f s r
  | anchor => exact .refl r
  | lineEnd s => exact descends_onLineEnd s r
  | tableBegin s => exact .of_eq rfl rfl rfl rfl
  | tableRow row s => exact .of_eq rfl rfl rfl rfl
  | tableEnd s => exact descends_onTableEnd s r
  | image alt url s => exact descends_onImage alt url s r
  | part url s => exact descends_onPartial url s r

end PageRenderer

/-! ## Whole passes -/

open PageRenderer

variable {r : PageRenderer}

/-- A pass begins soundly. -/
theorem sound_begin (r : PageRenderer) (scroll : UInt16) : Sound o (r.begin scroll) :=
  ⟨rfl, rfl, trivial⟩

/-- A pass, from any state. -/
theorem descends_run (r : PageRenderer) (cs : List Callback) :
    Descends o r (Runs.run (step o) r cs) :=
  Runs.run_rel (Descends o) .refl .trans descends_step r cs

/-- **A page whose height fits 16 bits is exact.** -/
theorem Sound.heightExact (h : Sound o r) (hle : trueHeight o r.log ≤ 65535) :
    HeightExact o r (advancesOf r.log) := by
  refine ⟨?_, fun before top op after hlog hwin => ?_⟩
  · rw [contentHeight, h.y_eq, UInt16.toNat_ofNat', ← trueHeight]
    omega
  · have hanch := h.anchored
    rw [hlog, anchored_append, Nat.zero_add] at hanch
    obtain ⟨htop, hs, -⟩ := hanch.2
    have hbefore : trueHeight o before ≤ trueHeight o r.log :=
      trueHeight_le_of_isPrefix o ⟨_, hlog.symm⟩
    -- the row has not wrapped, for the whole page has not
    have htop' : top.toNat = trueHeight o before := by
      rw [htop, UInt16.toNat_ofNat']
      omega
    rw [UInt16.toNat_sub_of_le _ _ (UInt16.le_iff_toNat_le.mpr (htop'.symm ▸ hs)), htop'] at hwin
    exact ⟨hs, by omega⟩

/-- An exact height is a 16-bit number. -/
theorem HeightExact.le {as : List Advance} (h : HeightExact o r as) : heightOf o as ≤ 65535 := by
  have hlt := r.contentHeight.toNat_lt
  rw [h.height_eq] at hlt
  omega

/-- The log of a pass has the rows and gaps that are listed for its callbacks. -/
theorem advancesOf_run (r : PageRenderer) (scroll : UInt16) (cs : List Callback) :
    advancesOf (Runs.run (step o) (r.begin scroll) cs).log = (r.begin scroll).laid o cs :=
  (laysOut_run (r.begin scroll) cs).advancesOf_log

/-- **The height is exact throughout a pass**: after every callback it is the sum of what the
callbacks up to there lay out, no row was drawn out of place, and it never shrinks. -/
structure HeightExactThroughout (o : Options) (r : PageRenderer) (scroll : UInt16)
    (cs : List Callback) : Prop where
  /-- After every callback. -/
  exact : ∀ pre, pre <+: cs →
    HeightExact o (Runs.run (step o) (r.begin scroll) pre) ((r.begin scroll).laid o pre)
  /-- From one callback to the next. -/
  grows : ∀ pre c, pre ++ [c] <+: cs →
    (Runs.run (step o) (r.begin scroll) pre).contentHeight
      ≤ (Runs.run (step o) (r.begin scroll) (pre ++ [c])).contentHeight

/-- **The height is exact for the pages whose rows and gaps add up to at most 65535 pixels**, and
for no others. Where a row has its true position is told by the rows and gaps in the log in front of
it, which are those of the callbacks. -/
theorem heightExactThroughout_iff (o : Options) (r : PageRenderer) (scroll : UInt16)
    (cs : List Callback) :
    advancesOf (Runs.run (step o) (r.begin scroll) cs).log = (r.begin scroll).laid o cs ∧
      (HeightExactThroughout o r scroll cs ↔ heightOf o ((r.begin scroll).laid o cs) ≤ 65535) := by
  refine ⟨advancesOf_run r scroll cs, fun h => (h.exact cs List.prefix_rfl).le, fun hle => ?_⟩
  have hsub : ∀ pre, pre <+: cs →
      HeightExact o (Runs.run (step o) (r.begin scroll) pre) ((r.begin scroll).laid o pre) := by
    -- what is laid out so far is no higher than the whole page
    rintro pre ⟨rest, rfl⟩
    have hrun := descends_run (o := o) (r.begin scroll) pre
    have hrest := descends_run (o := o) (Runs.run (step o) (r.begin scroll) pre) rest
    rw [← Runs.run_append] at hrest
    rw [← advancesOf_run] at hle ⊢
    exact (hrun.sound (sound_begin r scroll)).heightExact
      ((trueHeight_le_of_isPrefix o hrest.log_isPrefix).trans hle)
  refine ⟨hsub, fun pre c hp => ?_⟩
  have hpre := hsub pre ((List.prefix_append pre [c]).trans hp)
  rw [UInt16.le_iff_toNat_le, hpre.height_eq, (hsub _ hp).height_eq, laid, laid,
    Runs.outputs_append, heightOf_append]
  exact Nat.le_add_right _ _

/-- A line of a page that is a divider. -/
def dividerLine : List Callback := [.divider 0x2500 {}, .lineEnd {}]

/-- On a body row a divider line is one row. -/
theorem laid_dividerLine (hr : r.ownRowH = 0) : r.laid o dividerLine = [.row 0] := by
  have hrow : (r.onDivider o 0x2500 {}).ownRowH = 0 := by
    unfold onDivider drawDivider
    split <;> exact hr
  show [Advance.row (r.onDivider o 0x2500 {}).ownRowH] = _
  rw [hrow]

/-- A page of divider lines. -/
theorem laid_dividerLines (hr : r.ownRowH = 0) (n : Nat) :
    r.laid o (List.replicate n dividerLine).flatten = List.replicate n (.row 0) := by
  induction n generalizing r with
  | zero => rfl
  | succ n ih =>
    have hrest := ih (r := Runs.run (step o) r dividerLine) rfl
    have hline := laid_dividerLine (o := o) hr
    rw [laid] at hrest hline ⊢
    rw [List.replicate_succ, List.flatten_cons, Runs.outputs_append, hline, hrest]
    rfl

/-- 4370 divider lines are 65550 pixels high: the height wraps. -/
theorem tall_page_wraps : ¬ HeightExactThroughout { fonts := Display.blankFonts }
    (.fresh fun _ => 0) 0 (List.replicate 4370 dividerLine).flatten := by
  intro h
  have hle := (h.exact _ List.prefix_rfl).le
  rw [laid_dividerLines rfl, heightOf_replicate] at hle
  have hline : (Advance.row 0).height { fonts := Display.blankFonts } = 15 := rfl
  rw [hline] at hle
  omega

end Thicket.Page
