import Mathlib.Data.List.DropRight
import Thicket.Base.Runs
import Thicket.Page.Table
import Thicket.Page.Pen

/-! # Blank lines of a page

A page is a sequence of blank lines and content lines. A run of blank lines is due one gap when a
content line stands before it. The renderer knows that by `_blank_pending`, which `blankLine` sets
and only `onText` clears: a block of content lines without a text leaves it as it was, and the
blank lines after the block open no gap. -/

namespace Thicket.Page

open Runs Thicket.Lcd

/-! ## Pages -/

/-- The callback is `onText`. -/
def Callback.isText : Callback → Bool
  | .text _ _ => true
  | _ => false

/-- The callback makes its line a content line: a text, a link, a divider, a field or a table. -/
def Callback.shows : Callback → Bool
  | .text _ _ => true
  | .link _ _ _ => true
  | .divider _ _ => true
  | .field _ _ => true
  | .tableBegin _ => true
  | .tableRow _ _ => true
  | .tableEnd _ => true
  | _ => false

/-- **A content line**, by the callbacks the parser makes for it. -/
structure ContentLine where
  /-- The callbacks, in order. -/
  calls : List Callback
  /-- `blankLine` is for blank lines. -/
  no_blank : Callback.blankLine ∉ calls
  /-- Something is on the line. -/
  shows : calls.any Callback.shows = true

/-- A source line of a page. -/
inductive PageLine where
  /-- A blank line: `compose_page` calls `blankLine`. -/
  | blank
  /-- Any other line: the parser makes its callbacks. -/
  | content (line : ContentLine)

namespace PageLine

/-- The line is blank. -/
def isBlank : PageLine → Bool
  | .blank => true
  | .content _ => false

/-- The line has a text. -/
def hasText : PageLine → Bool
  | .blank => false
  | .content line => line.calls.any Callback.isText

/-- The runs of blank lines that come after content; `after` tells whether the line before is a
content line. -/
def gapsDueFrom : Bool → List PageLine → Nat
  | _, [] => 0
  | after, l :: ls => (after && l.isBlank).toNat + gapsDueFrom (!l.isBlank) ls

/-- **The gaps a page is due**: one for each maximal run of blank lines behind a content line. -/
def gapsDue (page : List PageLine) : Nat := gapsDueFrom false page

/-- The content lines at the end of a page, behind its last blank line. -/
def lastBlock (page : List PageLine) : List PageLine := page.rtakeWhile fun l => !l.isBlank

/-- Every block of content lines that a blank line ends has a text in it. -/
def TextInBlocks (page : List PageLine) : Prop :=
  ∀ pre, pre ++ [.blank] <+: page → lastBlock pre ≠ [] → (lastBlock pre).any hasText = true

@[simp] theorem lastBlock_nil : lastBlock [] = [] := rfl

@[simp] theorem lastBlock_blank (page : List PageLine) : lastBlock (page ++ [.blank]) = [] :=
  List.rtakeWhile_concat_neg _ _ _ (by decide)

@[simp] theorem lastBlock_content (page : List PageLine) (line : ContentLine) :
    lastBlock (page ++ [.content line]) = lastBlock page ++ [.content line] :=
  List.rtakeWhile_concat_pos _ _ _ rfl

/-- A blank line is due a gap where the page so far ends with content. -/
theorem gapsDueFrom_blank (after : Bool) (page : List PageLine) :
    gapsDueFrom after (page ++ [.blank])
      = gapsDueFrom after page + (page.foldl (fun _ l => !l.isBlank) after).toNat := by
  induction page generalizing after with
  | nil => simp [gapsDueFrom, isBlank]
  | cons l ls ih => simp [gapsDueFrom, ih, Nat.add_assoc]

/-- A content line is due none. -/
theorem gapsDueFrom_content (after : Bool) (page : List PageLine) (line : ContentLine) :
    gapsDueFrom after (page ++ [.content line]) = gapsDueFrom after page := by
  induction page generalizing after with
  | nil => simp [gapsDueFrom, isBlank]
  | cons l ls ih => simp [gapsDueFrom, ih]

/-- A page ends with content where its last block is not empty. -/
theorem endsWithContent_eq (page : List PageLine) :
    page.foldl (fun _ l => !l.isBlank) false = !(lastBlock page).isEmpty := by
  induction page using List.reverseRecOn with
  | nil => rfl
  | append_singleton page l _ => cases l <;> simp [isBlank]

/-- The gaps due with one more blank line. -/
theorem gapsDue_blank (page : List PageLine) :
    gapsDue (page ++ [.blank]) = gapsDue page + (!(lastBlock page).isEmpty).toNat := by
  rw [gapsDue, gapsDueFrom_blank, endsWithContent_eq, gapsDue]

/-- The gaps due with one more content line. -/
theorem gapsDue_content (page : List PageLine) (line : ContentLine) :
    gapsDue (page ++ [.content line]) = gapsDue page :=
  gapsDueFrom_content false page line

/-- The condition on a page with one more blank line. -/
theorem textInBlocks_blank (page : List PageLine) :
    TextInBlocks (page ++ [.blank]) ↔ TextInBlocks page ∧
      (lastBlock page ≠ [] → (lastBlock page).any hasText = true) := by
  constructor
  · intro h
    exact ⟨fun pre hp => h pre (hp.trans (List.prefix_append _ _)), h page List.prefix_rfl⟩
  · rintro ⟨h, hlast⟩ pre hp
    rcases List.prefix_concat_iff.mp hp with heq | hp'
    · rw [List.append_cancel_right heq]
      exact hlast
    · exact h pre hp'

/-- The condition on a page with one more content line. -/
theorem textInBlocks_content (page : List PageLine) (line : ContentLine) :
    TextInBlocks (page ++ [.content line]) ↔ TextInBlocks page := by
  constructor
  · intro h pre hp
    exact h pre (hp.trans (List.prefix_append _ _))
  · intro h pre hp
    rcases List.prefix_concat_iff.mp hp with heq | hp'
    · have hlast := List.append_inj_right' heq rfl
      cases hlast
    · exact h pre hp'

end PageLine

/-! ## Who touches the flag -/

/-- Moving the pen leaves the flag. -/
theorem OnlyPen.blankPending_eq {r s : PageRenderer} (h : OnlyPen r s) :
    s.blankPending = r.blankPending := by
  rw [h.layout_eq]

namespace PageRenderer

variable {o : Options}

/-- A run in the row's inversion leaves the flag. -/
@[simp] theorem emitHere_blankPending (t : Span) (r : PageRenderer) :
    (r.emitHere o t).blankPending = r.blankPending :=
  (onlyPen_emitRun t r.invert r).blankPending_eq

/-- `onLink` leaves the flag. -/
theorem onLink_blankPending (label target : Span) (s : Style) (r : PageRenderer) :
    (r.onLink o label target s).blankPending = r.blankPending := by
  show (((r.setDepth s).freshRow).emitHere o label).blankPending = r.blankPending
  rw [emitHere_blankPending]
  rfl

/-- **`onText` clears the flag and no other callback of the parser touches it.** -/
theorem step_blankPending (r : PageRenderer) {c : Callback} (hc : c ≠ .blankLine) :
    (r.step o c).blankPending = (r.blankPending && !c.isText) := by
  cases c with
  | blankLine => exact absurd rfl hc
  | text t s =>
    -- the flag goes down before the run is emitted, and emitting it does not ask
    show ((r.openText o t s).emitHere o t).blankPending = _
    rw [emitHere_blankPending]
    simp [openText, startText, freshRow, alignPen, setBackground, climbLadder, setStyle,
      Callback.isText]
  | link label target s =>
    exact (onLink_blankPending label target s r).trans (Bool.and_true _).symm
  | divider ch s =>
    have h : (((r.setDepth s).freshRow).drawDivider o ch).blankPending = r.blankPending :=
      (onlyPen_drawDivider ch _).blankPending_eq
    exact h.trans (Bool.and_true _).symm
  | field f s =>
    have h : (r.onField o f s).blankPending = r.blankPending := by
      rw [onField]
      split
      · exact (onlyPen_textField f s _).blankPending_eq
      · exact (onlyPen_boxField f _).blankPending_eq
    exact h.trans (Bool.and_true _).symm
  | anchor => simp [step, onAnchor, Callback.isText]
  | lineEnd s =>
    have h : (r.onLineEnd o s).blankPending = r.blankPending :=
      (onlyPen_headGap s _ (r.setDepth s)).blankPending_eq
    exact h.trans (Bool.and_true _).symm
  | tableBegin s => simp [step, onTableBegin, setDepth, Callback.isText]
  | tableRow row s => simp [step, onTableRow, setDepth, Callback.isText]
  | tableEnd s =>
    have h : (r.onTableEnd o s).blankPending = r.blankPending := by
      rw [onTableEnd, tableFlush]
      split_ifs
      · rfl
      · rfl
      · exact (frame_onlyPen.drawTable _).blankPending_eq
    exact h.trans (Bool.and_true _).symm
  | image alt url s =>
    have h : (r.onImage o alt url s).blankPending = r.blankPending := by
      simp [onImage, setDepth]
    exact h.trans (Bool.and_true _).symm
  | part url s =>
    have h : (r.onPartial o url s).blankPending = r.blankPending := by
      simp [onPartial, onLink_blankPending, setDepth]
    exact h.trans (Bool.and_true _).symm

/-- The flag after the callbacks of a content line. -/
theorem run_blankPending (cs : List Callback) (hcs : .blankLine ∉ cs) (r : PageRenderer) :
    (run (step o) r cs).blankPending = (r.blankPending && !cs.any Callback.isText) := by
  induction cs generalizing r with
  | nil => simp
  | cons c cs ih =>
    rw [run_cons, ih (fun h => hcs (List.mem_cons_of_mem c h)),
      step_blankPending r (fun h => hcs (h ▸ List.mem_cons_self)), List.any_cons]
    cases r.blankPending <;> simp

/-! ## Whole pages -/

/-- The renderer over one source line. -/
def lineStep (o : Options) (r : PageRenderer) : PageLine → PageRenderer
  | .blank => r.blankLine o
  | .content line => run (step o) r line.calls

/-- The gap that a source line opens, as `blankLine` logs it. -/
def gapOf (o : Options) (r : PageRenderer) : PageLine → List Entry
  | .blank => (r.blankLine o).log.drop r.log.length
  | .content _ => []

/-- The gaps that a pass over a page opens. -/
def gapsOpened (o : Options) (r : PageRenderer) (scroll : UInt16) (page : List PageLine) :
    List Entry :=
  outputs (lineStep o) (gapOf o) (r.begin scroll) page

/-- The renderer after a pass over a page. -/
def afterPage (o : Options) (r : PageRenderer) (scroll : UInt16) (page : List PageLine) :
    PageRenderer :=
  run (lineStep o) (r.begin scroll) page

/-- A blank line opens a gap where none is pending. -/
theorem length_gapOf_blank (r : PageRenderer) :
    (gapOf o r .blank).length = (!r.blankPending).toNat := by
  rw [gapOf, blankLine]
  cases h : r.blankPending with
  | true => simp
  | false => simp [down]

/-- **The flag over a page**: it is set where the last block has no text. -/
theorem afterPage_blankPending (r : PageRenderer) (scroll : UInt16) (page : List PageLine) :
    (afterPage o r scroll page).blankPending
      = !(PageLine.lastBlock page).any PageLine.hasText := by
  induction page using List.reverseRecOn with
  | nil => rfl
  | append_singleton page l ih =>
    rw [afterPage, run_append, run_cons, run_nil]
    rw [afterPage] at ih
    cases l with
    | blank =>
      rw [PageLine.lastBlock_blank, lineStep, blankLine]
      split
      next h => exact h
      next => rfl
    | content line =>
      -- a line of content is added to the last block, and no callback of it sets the flag
      rw [PageLine.lastBlock_content, lineStep, run_blankPending _ line.no_blank, ih,
        List.any_append]
      simp [PageLine.hasText]

/-- The gaps opened with one more line. -/
theorem length_gapsOpened_concat (r : PageRenderer) (scroll : UInt16) (page : List PageLine)
    (l : PageLine) : (gapsOpened o r scroll (page ++ [l])).length
      = (gapsOpened o r scroll page).length + (gapOf o (afterPage o r scroll page) l).length := by
  simp [gapsOpened, afterPage]

/-- **No gap is opened that is not due**, and all are opened where every block has a text. -/
theorem length_gapsOpened (r : PageRenderer) (scroll : UInt16) (page : List PageLine) :
    (gapsOpened o r scroll page).length ≤ PageLine.gapsDue page ∧
      ((gapsOpened o r scroll page).length = PageLine.gapsDue page
        ↔ PageLine.TextInBlocks page) := by
  induction page using List.reverseRecOn with
  | nil =>
    refine ⟨Nat.le_refl 0, fun _ pre hp => ?_, fun _ => rfl⟩
    exact absurd (List.prefix_nil.mp hp) (by simp)
  | append_singleton page l ih =>
    obtain ⟨hle, hiff⟩ := ih
    rw [length_gapsOpened_concat]
    cases l with
    | content line =>
      rw [PageLine.gapsDue_content, PageLine.textInBlocks_content]
      exact ⟨hle, hiff⟩
    | blank =>
      rw [PageLine.gapsDue_blank, PageLine.textInBlocks_blank, length_gapOf_blank,
        afterPage_blankPending, ← hiff]
      -- the last block decides: it is empty, it has a text, or it has none
      cases hblock : PageLine.lastBlock page with
      | nil =>
        simp only [List.any_nil, Bool.not_false, Bool.not_true, Bool.toNat_false,
          List.isEmpty_nil, Nat.add_zero]
        exact ⟨hle, by simp⟩
      | cons b bs =>
        cases htext : (b :: bs).any PageLine.hasText with
        | true => simpa using hle
        | false =>
          simp only [Bool.not_false, Bool.not_true, Bool.toNat_false, List.isEmpty_cons,
            Bool.toNat_true, Nat.add_zero]
          refine ⟨by omega, ?_⟩
          constructor
          · intro h
            omega
          · rintro ⟨-, h⟩
            exact absurd (h (by simp)) (by simp)

/-- **Blank lines collapse to exactly one gap** on the pages whose blocks of content lines, where a
blank line ends them, all have a text, and on no others. -/
theorem gaps_exact_iff (o : Options) (r : PageRenderer) (scroll : UInt16) (page : List PageLine) :
    (gapsOpened o r scroll page).length = PageLine.gapsDue page ↔ PageLine.TextInBlocks page :=
  (length_gapsOpened r scroll page).2

/-- A line that is a divider. -/
def dividerOnly : ContentLine where
  calls := [.divider 0x2500 {}, .lineEnd {}]
  no_blank := by simp
  shows := rfl

/-- The blank line behind a divider opens no gap, and one is due. -/
theorem divider_swallows_gap :
    ¬ ∀ (o : Options) (r : PageRenderer) (scroll : UInt16) (page : List PageLine),
      (gapsOpened o r scroll page).length = PageLine.gapsDue page := by
  intro hall
  have h := hall { fonts := Display.blankFonts } (.fresh fun _ => 0) 0
    [.content dividerOnly, .blank]
  rw [show [PageLine.content dividerOnly, .blank] = [.content dividerOnly] ++ [.blank] from rfl,
    length_gapsOpened_concat, length_gapOf_blank, afterPage_blankPending] at h
  exact absurd h (by decide)

end PageRenderer

end Thicket.Page
