import Thicket.Page.Height
import Thicket.Page.Window

/-! # The boxes of the links

`onLink` takes the origin of a box before it emits the label, and its width after. The box is where
the label is as long as the label stays on the row it begins on. -/

namespace Thicket.Page

open Thicket.Lcd Thicket.Page.Span

/-! ## Where a label goes -/

/-- A piece of a row that a run has gone over. -/
structure Stretch where
  /-- The row, in page coordinates. -/
  row : UInt16
  /-- Where it begins. -/
  x : UInt16
  /-- Its width. -/
  w : UInt16
  /-- The height of the row. -/
  h : UInt16
  deriving DecidableEq

/-- A column of pixels belongs to a stretch. -/
def Stretch.Has (s : Stretch) (px : Nat) : Prop := s.x.toNat ≤ px ∧ px < s.x.toNat + s.w.toNat

/-- Stretches one behind the other, on a row, from a pen to a pen. -/
def Tiles (row h : UInt16) : Nat → List Stretch → Nat → Prop
  | a, [], b => a = b
  | a, s :: ss, b => s.row = row ∧ s.h = h ∧ s.x.toNat = a ∧ Tiles row h (a + s.w.toNat) ss b

namespace Tiles

variable {row h : UInt16} {a b c : Nat} {ss ts : List Stretch}

/-- Tilings that meet. -/
theorem append (hss : Tiles row h a ss b) (hts : Tiles row h b ts c) :
    Tiles row h a (ss ++ ts) c := by
  induction ss generalizing a with
  | nil =>
    obtain rfl : a = b := hss
    exact hts
  | cons s ss ih => exact ⟨hss.1, hss.2.1, hss.2.2.1, ih hss.2.2.2⟩

/-- A tiling goes to the right. -/
theorem le (hss : Tiles row h a ss b) : a ≤ b := by
  induction ss generalizing a with
  | nil => exact Nat.le_of_eq hss
  | cons s ss ih => exact (Nat.le_add_right _ _).trans (ih hss.2.2.2)

/-- A tiling is on its row. -/
theorem on_row (hss : Tiles row h a ss b) {s : Stretch} (hs : s ∈ ss) : s.row = row ∧ s.h = h := by
  induction ss generalizing a with
  | nil => cases hs
  | cons t ss ih =>
    obtain rfl | hmem := List.mem_cons.mp hs
    · exact ⟨hss.1, hss.2.1⟩
    · exact ih hss.2.2.2 hmem

/-- **A tiling covers what is between its ends**, and nothing else. -/
theorem covers (hss : Tiles row h a ss b) (px : Nat) :
    (∃ s ∈ ss, s.Has px) ↔ a ≤ px ∧ px < b := by
  induction ss generalizing a with
  | nil =>
    obtain rfl : a = b := hss
    simp
  | cons s ss ih =>
    obtain ⟨-, -, hx, hrest⟩ := hss
    have hle := hrest.le
    have hhead : s.Has px ↔ a ≤ px ∧ px < a + s.w.toNat := by rw [Stretch.Has, hx]
    simp only [List.mem_cons, exists_eq_or_imp]
    rw [ih hrest, hhead]
    omega

end Tiles

namespace PageRenderer

variable (o : Options) (t : Span) (invert : Bool)

/-- The next piece, of a width. -/
def stretch (w : UInt16) (r : PageRenderer) : Stretch := ⟨r.y, r.x, w, r.rowH o⟩

/-- The cells of a preformatted line. -/
def literalStretches : List Nat → PageRenderer → List Stretch
  | [], _ => []
  | k :: ks, r =>
      if right < r.x.toNat + fontAdvance then []
      else r.stretch o (UInt16.ofNat fontAdvance)
        :: literalStretches ks (r.emitLiteralCell o t invert k)

/-- A cell of a word. -/
def cellStretch (r : PageRenderer) (_ : Nat) : List Stretch :=
  [r.stretch o (UInt16.ofNat r.advance)]

/-- A cell of a word that is broken at the margin. -/
def brokenStretch (r : PageRenderer) (k : Nat) : List Stretch :=
  (r.wrapIfNeeded o r.advance).cellStretch o k

/-- The spaces in front of a word, unless they are dropped at a wrap. -/
def leadStretch (r : PageRenderer) (w : Word) : List Stretch :=
  if Wraps t r.leftEdge r.advance r.x w ∨ leadW r.advance w = 0 then []
  else [r.stretch o (leadW r.advance w)]

/-- A word with the spaces in front of it. -/
def wordStretches (r : PageRenderer) (w : Word) : List Stretch :=
  if TooLong t r.leftEdge r.advance w then
    Runs.outputs (emitBrokenCell o t invert) (brokenStretch o) r (t.steps w.i w.w)
  else r.leadStretch o t w
    ++ Runs.outputs (emitCell o t invert) (cellStretch o) (r.breakOrLead o t invert w)
      (t.steps w.sp w.w)

/-- **Where a run goes**: the cells of `emit_run`, spaces included, in the order they are laid
out. -/
def runStretches (r : PageRenderer) : List Stretch :=
  if r.literal then literalStretches o t invert (t.steps 0 t.len) r.freshRow
  else Runs.outputs (emitWord o t invert) (wordStretches o t invert) r.guardIndent t.words

/-! ## Labels that stay on their row -/

/-- **A label fits the rest of its row**: it ends on the panel, and it ends within the margin or no
word of it is too long or wraps. A preformatted label is clipped at the margin. -/
def LabelStays (r : PageRenderer) : Prop :=
  if r.literal then r.x.toNat ≤ lcdWidth
  else r.x.toNat + t.cells 0 t.len * r.advance ≤ lcdWidth ∧
    (r.x.toNat + t.cells 0 t.len * r.advance ≤ right ∨ StaysOnLine t r.leftEdge r.advance r.x)

instance (r : PageRenderer) : Decidable (LabelStays t r) :=
  inferInstanceAs (Decidable (ite _ _ _))

/-- What was drawn went over these stretches of one row, and the pen is behind them. -/
structure Goes (r s : PageRenderer) (ss : List Stretch) : Prop where
  /-- Only the pen moved. -/
  pen : OnlyPen r s
  /-- The row. -/
  y_eq : s.y = r.y
  /-- The stretches. -/
  tiles : Tiles r.y (r.rowH o) r.x.toNat ss s.x.toNat

variable {o} {r s u : PageRenderer} {ss ts : List Stretch}

/-- Nothing done. -/
theorem Goes.refl (r : PageRenderer) : Goes o r r [] := ⟨.refl r, rfl, rfl⟩

/-- One piece after another. -/
theorem Goes.trans (h : Goes o r s ss) (k : Goes o s u ts) : Goes o r u (ss ++ ts) := by
  refine ⟨h.pen.trans k.pen, k.y_eq.trans h.y_eq, h.tiles.append ?_⟩
  have htiles := k.tiles
  rw [h.y_eq, h.pen.rowH_eq o] at htiles
  exact htiles

/-- A piece that moves the pen by its width. -/
theorem Goes.piece (hpen : OnlyPen r s) (hy : s.y = r.y) {w : UInt16} (hx : s.x = r.x + w)
    (hle : r.x.toNat + w.toNat ≤ 65535) : Goes o r s [r.stretch o w] := by
  refine ⟨hpen, hy, rfl, rfl, rfl, ?_⟩
  show r.x.toNat + w.toNat = s.x.toNat
  rw [hx, UInt16.toNat_add]
  exact (Nat.mod_eq_of_lt (by omega)).symm

/-- A codepoint of the row's face. -/
theorem goes_emitGlyph (d : List UInt8 → Drawing) (r : PageRenderer) (k : Nat)
    (hle : r.x.toNat + r.advance ≤ 65535) :
    Goes o r (r.emitGlyph o t d k) (r.cellStretch o k) ∧
      (r.emitGlyph o t d k).x.toNat = r.x.toNat + r.advance := by
  obtain ⟨hx, hy⟩ := emitGlyph_pen (o := o) t d r k
  have hadv : (UInt16.ofNat r.advance).toNat = r.advance := toNat_advance r.toLayout
  have hgoes : Goes o r (r.emitGlyph o t d k) (r.cellStretch o k) :=
    .piece (onlyPen_emitGlyph t d r k) hy hx (by rw [hadv]; exact hle)
  refine ⟨hgoes, ?_⟩
  rw [hx, UInt16.toNat_add, hadv]
  exact Nat.mod_eq_of_lt (by omega)

/-- The cells of a word. -/
theorem goes_emitCells (ks : List Nat) (r : PageRenderer)
    (hle : r.x.toNat + ks.length * r.advance ≤ 65535) :
    Goes o r (Runs.run (emitCell o t invert) r ks)
        (Runs.outputs (emitCell o t invert) (cellStretch o) r ks) ∧
      (Runs.run (emitCell o t invert) r ks).x.toNat = r.x.toNat + ks.length * r.advance := by
  induction ks generalizing r with
  | nil => exact ⟨.refl r, by simp⟩
  | cons k ks ih =>
    rw [List.length_cons, Nat.succ_mul] at hle
    obtain ⟨hcell, hx⟩ := goes_emitGlyph (o := o) t (cellOps o invert) r k (by omega)
    have hadv : (r.emitCell o t invert k).advance = r.advance := hcell.pen.advance_eq
    obtain ⟨hrest, hx'⟩ := ih (r.emitCell o t invert k) (by
      rw [hadv, emitCell, hx]
      omega)
    refine ⟨hcell.trans hrest, ?_⟩
    rw [Runs.run_cons, hx', hadv, emitCell, hx, List.length_cons, Nat.succ_mul]
    omega

/-- The cells of a word that is broken at the margin, if it ends there at most. -/
theorem goes_emitBroken (ks : List Nat) (r : PageRenderer)
    (hle : r.x.toNat + ks.length * r.advance ≤ right) :
    Goes o r (Runs.run (emitBrokenCell o t invert) r ks)
        (Runs.outputs (emitBrokenCell o t invert) (brokenStretch o) r ks) ∧
      (Runs.run (emitBrokenCell o t invert) r ks).x.toNat
        = r.x.toNat + ks.length * r.advance := by
  have hright : right = 398 := rfl
  induction ks generalizing r with
  | nil => exact ⟨.refl r, by simp⟩
  | cons k ks ih =>
    rw [List.length_cons, Nat.succ_mul] at hle
    -- the test before each cell finds room for it
    have hwrap : r.wrapIfNeeded o r.advance = r := by
      rw [wrapIfNeeded, if_neg (by omega)]
    have hbroken : r.emitBrokenCell o t invert k = r.emitGlyph o t (brokenOps o invert) k := by
      rw [emitBrokenCell, hwrap]
    have hstretch : brokenStretch o r k = r.cellStretch o k := by rw [brokenStretch, hwrap]
    obtain ⟨hcell, hx⟩ := goes_emitGlyph (o := o) t (brokenOps o invert) r k (by omega)
    rw [← hbroken] at hcell hx
    have hadv := hcell.pen.advance_eq
    obtain ⟨hrest, hx'⟩ := ih (r.emitBrokenCell o t invert k) (by
      rw [hadv, hx]
      omega)
    rw [Runs.outputs_cons, hstretch]
    refine ⟨hcell.trans hrest, ?_⟩
    rw [Runs.run_cons, hx', hadv, hx, List.length_cons, Nat.succ_mul]
    omega

/-- A word that is not broken and does not wrap. -/
theorem goes_unbroken (r : PageRenderer) {w : Word}
    (hle : r.x.toNat + (w.sp - w.i) * r.advance + t.cells w.sp w.w * r.advance ≤ lcdWidth)
    (hlong : ¬ TooLong t r.leftEdge r.advance w) (hwrap : ¬ Wraps t r.leftEdge r.advance r.x w) :
    Goes o r (r.emitWord o t invert w) (r.wordStretches o t invert w) ∧
      (r.emitWord o t invert w).x.toNat
        = r.x.toNat + (w.sp - w.i) * r.advance + t.cells w.sp w.w * r.advance := by
  have hwide : lcdWidth = 400 := rfl
  -- on the panel no width wraps
  have hlead : (leadW r.advance w).toNat = (w.sp - w.i) * r.advance := by
    rw [leadW, UInt16.toNat_ofNat']
    exact Nat.mod_eq_of_lt (by omega)
  have hfirst : Goes o r (r.breakOrLead o t invert w) (r.leadStretch o t w) ∧
      (r.breakOrLead o t invert w).x.toNat = r.x.toNat + (w.sp - w.i) * r.advance := by
    rw [breakOrLead, leadStretch, if_neg hwrap, ← hlead]
    by_cases hzero : leadW r.advance w = 0
    · rw [if_pos hzero, if_pos (.inr hzero), hzero]
      exact ⟨.refl r, rfl⟩
    · rw [if_neg hzero, if_neg (not_or.mpr ⟨hwrap, hzero⟩)]
      have hx : (r.emitLead o invert (leadW r.advance w)).x = r.x + leadW r.advance w := by
        simp [emitLead, penOver]
      refine ⟨.piece (onlyPen_piece _ _ r) (by simp [penOver]) hx (by omega), ?_⟩
      rw [hx, UInt16.toNat_add]
      exact Nat.mod_eq_of_lt (by omega)
  have hadv : (r.breakOrLead o t invert w).advance = r.advance :=
    (onlyPen_breakOrLead t invert r w).advance_eq
  have hcells : (t.steps w.sp w.w).length = t.cells w.sp w.w := rfl
  obtain ⟨hrest, hx⟩ := goes_emitCells (o := o) t invert (t.steps w.sp w.w)
    (r.breakOrLead o t invert w) (by rw [hadv, hfirst.2, hcells]; omega)
  rw [emitWord, wordStretches, if_neg hlong, if_neg hlong]
  refine ⟨hfirst.1.trans hrest, ?_⟩
  rw [hx, hadv, hfirst.2, hcells]

/-- **A word that ends on the panel**, within the margin or without being broken or wrapped. -/
theorem goes_emitWord (r : PageRenderer) {i : Nat}
    (hle : r.x.toNat + (t.steps i (t.wordAt i).w).length * r.advance ≤ lcdWidth)
    (hstay : r.x.toNat + (t.steps i (t.wordAt i).w).length * r.advance ≤ right ∨
      ¬ TooLong t r.leftEdge r.advance (t.wordAt i) ∧
        ¬ Wraps t r.leftEdge r.advance r.x (t.wordAt i)) :
    Goes o r (r.emitWord o t invert (t.wordAt i)) (r.wordStretches o t invert (t.wordAt i)) ∧
      (r.emitWord o t invert (t.wordAt i)).x.toNat
        = r.x.toNat + (t.steps i (t.wordAt i).w).length * r.advance := by
  by_cases hlong : TooLong t r.leftEdge r.advance (t.wordAt i)
  · -- broken, but its cells end within the margin
    have hin := hstay.resolve_right fun h => h.1 hlong
    rw [emitWord, wordStretches, if_pos hlong, if_pos hlong]
    exact goes_emitBroken t invert _ r hin
  · have hcells : (t.steps i (t.wordAt i).w).length
        = ((t.wordAt i).sp - i) + t.cells (t.wordAt i).sp (t.wordAt i).w := t.cells_wordAt i
    have hi : (t.wordAt i).i = i := rfl
    -- the 16-bit widths are at most the true ones, so the test does not wrap without need
    have hwrap : ¬ Wraps t r.leftEdge r.advance r.x (t.wordAt i) := by
      rcases hstay with hin | hno
      · intro hwrap
        have hlead : (leadW r.advance (t.wordAt i)).toNat ≤ ((t.wordAt i).sp - i) * r.advance := by
          rw [leadW, UInt16.toNat_ofNat']
          exact Nat.mod_le _ _
        have hword : (wordW t r.advance (t.wordAt i)).toNat
            ≤ t.cells (t.wordAt i).sp (t.wordAt i).w * r.advance := by
          rw [wordW, UInt16.toNat_ofNat']
          exact Nat.mod_le _ _
        have hbeyond := hwrap.1
        rw [hcells, Nat.add_mul] at hin
        omega
      · exact hno.2
    rw [hcells, Nat.add_mul, ← Nat.add_assoc] at hle ⊢
    exact goes_unbroken t invert r hle hlong hwrap

/-- **The words of a run that stays on its row.** -/
theorem goes_emitWords {ws : List Word} (hws : ∀ w ∈ ws, w = t.wordAt w.i) (r : PageRenderer)
    (hle : r.x.toNat + (ws.flatMap fun w => t.steps w.i w.w).length * r.advance ≤ lcdWidth)
    (hstay : r.x.toNat + (ws.flatMap fun w => t.steps w.i w.w).length * r.advance ≤ right ∨
      Runs.Along (penAfter t r.advance) (fun x w => ¬ TooLong t r.leftEdge r.advance w ∧
        ¬ Wraps t r.leftEdge r.advance x w) r.x ws) :
    Goes o r (Runs.run (emitWord o t invert) r ws)
        (Runs.outputs (emitWord o t invert) (wordStretches o t invert) r ws) ∧
      (Runs.run (emitWord o t invert) r ws).x.toNat
        = r.x.toNat + (ws.flatMap fun w => t.steps w.i w.w).length * r.advance := by
  induction ws generalizing r with
  | nil => exact ⟨.refl r, by simp⟩
  | cons w ws ih =>
    have hw := hws w List.mem_cons_self
    rw [List.flatMap_cons, List.length_append, Nat.add_mul] at hle hstay
    -- both ways of staying on the row hold of the first word alone
    have hfirst : r.x.toNat + (t.steps w.i (t.wordAt w.i).w).length * r.advance ≤ right ∨
        ¬ TooLong t r.leftEdge r.advance (t.wordAt w.i) ∧
          ¬ Wraps t r.leftEdge r.advance r.x (t.wordAt w.i) := by
      rw [← hw]
      rcases hstay with hin | halong
      · exact .inl (by omega)
      · exact .inr halong.1
    obtain ⟨hword, hx⟩ := goes_emitWord (o := o) t invert r (i := w.i) (by rw [← hw]; omega) hfirst
    rw [← hw] at hword hx
    have hadv := hword.pen.advance_eq
    obtain ⟨hrest, hx'⟩ := ih (fun v hv => hws v (List.mem_cons_of_mem w hv))
      (r.emitWord o t invert w) (by rw [hadv, hx]; omega) (by
        rw [hadv, hword.pen.leftEdge_eq, hx]
        rcases hstay with hin | halong
        · exact .inl (by omega)
        · have hpen := (staysAt_emitWord (o := o) t invert halong.1.1 halong.1.2).2
          rw [hpen]
          exact .inr halong.2)
    refine ⟨hword.trans hrest, ?_⟩
    rw [Runs.run_cons, hx', hadv, hx, List.flatMap_cons, List.length_append, Nat.add_mul]
    omega

/-- **A preformatted line** ends within the margin, unless it begins behind it. -/
theorem goes_emitLiteral (ks : List Nat) (r : PageRenderer) :
    Goes o r (emitLiteralFrom o t invert ks r) (literalStretches o t invert ks r) ∧
      (emitLiteralFrom o t invert ks r).x.toNat ≤ max r.x.toNat right := by
  have hright : right = 398 := rfl
  induction ks generalizing r with
  | nil => exact ⟨.refl r, le_max_left _ _⟩
  | cons k ks ih =>
    rw [emitLiteralFrom, literalStretches]
    split
    · -- the mark is drawn over the last column
      have hpen : OnlyPen r { r.paint (clipOps o invert) with rowOpen := true } :=
        (onlyPen_paint _ r).trans ⟨rfl, rfl, rfl, rfl⟩
      have hx : (r.paint (clipOps o invert)).x = r.x := by simp
      refine ⟨⟨hpen, by simp, ?_⟩, ?_⟩
      · show r.x.toNat = (r.paint (clipOps o invert)).x.toNat
        rw [hx]
      · show (r.paint (clipOps o invert)).x.toNat ≤ _
        rw [hx]
        exact le_max_left _ _
    next hfits =>
      have hsix : fontAdvance = 6 := rfl
      have hadv : (UInt16.ofNat fontAdvance).toNat = fontAdvance := rfl
      have hpen : OnlyPen r (r.emitLiteralCell o t invert k) :=
        OnlyPen.trans (s := noteUnless _ _ r) ⟨rfl, rfl, rfl, rfl⟩ (onlyPen_piece _ _ _)
      have hx : (r.emitLiteralCell o t invert k).x = r.x + UInt16.ofNat fontAdvance := by
        simp [emitLiteralCell, penOver, noteUnless]
      have hcell : Goes o r (r.emitLiteralCell o t invert k)
          [r.stretch o (UInt16.ofNat fontAdvance)] :=
        .piece hpen (by simp [emitLiteralCell, penOver, noteUnless]) hx (by rw [hadv]; omega)
      obtain ⟨hrest, hle⟩ := ih (r.emitLiteralCell o t invert k)
      refine ⟨hcell.trans hrest, hle.trans ?_⟩
      rw [hx, UInt16.toNat_add, hadv]
      omega

/-- **A label that fits stays on its row**, and ends on the panel. -/
theorem goes_emitRun (q : PageRenderer) (hfit : LabelStays t q.freshRow) :
    Goes o q.freshRow (q.freshRow.emitRun o t invert) (q.freshRow.runStretches o t invert) ∧
      (q.freshRow.emitRun o t invert).x.toNat ≤ lcdWidth := by
  rw [LabelStays] at hfit
  rw [emitRun, runStretches]
  split
  next hlit =>
    -- the pen has been set by `onLink`: setting it again changes nothing
    have hfresh : q.freshRow.freshRow = q.freshRow := by
      simp only [freshRow, Layout.leftEdge]
      split <;> rfl
    rw [if_pos hlit] at hfit
    obtain ⟨hgoes, hle⟩ := goes_emitLiteral (o := o) t invert (t.steps 0 t.len) q.freshRow
    rw [emitLiteral, hfresh]
    have hin : right ≤ lcdWidth := by decide
    exact ⟨hgoes, hle.trans (max_le hfit hin)⟩
  next hlit =>
    -- a fresh pen is not left of the edge, so the guard does not move it
    have hguard : q.freshRow.guardIndent = q.freshRow := by
      have hedge := q.leftEdge_bounds
      have hmod : (UInt16.ofNat q.leftEdge).toNat = q.leftEdge := by
        rw [UInt16.toNat_ofNat']
        exact Nat.mod_eq_of_lt (by omega)
      rw [guardIndent, if_neg]
      rintro ⟨hopen, hlt⟩
      have hx : q.freshRow.x = UInt16.ofNat q.leftEdge := by
        rw [freshRow, if_neg (by rw [show q.rowOpen = false from hopen]; exact Bool.false_ne_true)]
      rw [hx, hmod] at hlt
      exact Nat.lt_irrefl _ hlt
    rw [if_neg hlit, cells, ← t.flatMap_words] at hfit
    rw [hguard]
    obtain ⟨hgoes, hx⟩ := goes_emitWords (o := o) t invert
      (fun w hw => (t.eq_wordAt_of_mem_words hw).1) q.freshRow hfit.1 hfit.2
    exact ⟨hgoes, hx.trans_le hfit.1⟩

end PageRenderer

/-! ## Boxes -/

/-- The stretches of the last row of a label. -/
def lastStretches (ss : List Stretch) : List Stretch :=
  ss.filter fun s => ss.getLast?.map Stretch.row == some s.row

/-- The last row of a tiling is its only one. -/
theorem Tiles.lastStretches_eq {row h : UInt16} {a b : Nat} {ss : List Stretch}
    (hss : Tiles row h a ss b) : lastStretches ss = ss := by
  refine List.filter_eq_self.mpr fun s hs => ?_
  have hne : ss ≠ [] := List.ne_nil_of_mem hs
  have hlast := (hss.on_row (List.getLast_mem hne)).1
  rw [List.getLast?_eq_some_getLast hne, Option.map_some, hlast, (hss.on_row hs).1]
  exact beq_self_eq_true _

/-- **A box that can be pressed**: it lies on the panel, and covers the cells that the label
occupies on its last row, and nothing else. -/
structure Pressable (scroll : UInt16) (ss : List Stretch) (b : LinkBox) : Prop where
  /-- It lies on the panel. -/
  on_panel : b.y.toNat < lcdHeight ∧ b.x.toNat + b.w.toNat ≤ lcdWidth
  /-- It is as high as the last row, and stands on it. -/
  on_row : ∀ s ∈ lastStretches ss, b.y = s.row - scroll ∧ b.h = s.h
  /-- Its columns are those of the cells. -/
  covers : ∀ px, (b.x.toNat ≤ px ∧ px < b.x.toNat + b.w.toNat) ↔ ∃ s ∈ lastStretches ss, s.Has px

/-- A link that is laid out. -/
structure LinkCall where
  /-- The renderer, with the pen where the label begins. -/
  start : PageRenderer
  /-- The label. -/
  label : Span
  /-- Where it leads. -/
  target : Span

namespace LinkCall

variable (o : Options) (c : LinkCall)

/-- The renderer when the label has been laid out. -/
def emitted : PageRenderer := c.start.emitHere o c.label

/-- The renderer when the box has been recorded. -/
def after : PageRenderer := c.start.linkHere o c.label c.target

/-- Where the label goes. -/
def stretches : List Stretch := c.start.runStretches o c.label c.start.invert

/-- The last row that the label is drawn on; an empty label stays where the pen is. -/
def lastRow : UInt16 := ((c.stretches o).getLast?.map Stretch.row).getD c.start.y

/-- The last row is in the window. -/
def Shows : Prop := Inside c.start.scroll (c.lastRow o)

instance : Decidable (c.Shows o) := inferInstanceAs (Decidable (Inside _ _))

/-- Neither the last row of the label nor the row that the pen is left on is in the window. -/
def Unseen : Prop := ¬ c.Shows o ∧ ¬ Inside c.start.scroll (c.emitted o).y

instance : Decidable (c.Unseen o) := inferInstanceAs (Decidable (_ ∧ _))

end LinkCall

namespace PageRenderer

variable (o : Options)

/-- The link that a callback lays out: `onLink`, also from `onPartial`. -/
def linkCall (r : PageRenderer) : Callback → Option LinkCall
  | .link label target s => some ⟨(r.setDepth s).freshRow, label, target⟩
  | .part url s =>
      some ⟨(((r.setDepth s).emitHere o (.ofList [0x5B, 0x2B, 0x5D, 0x20])).setDepth s).freshRow,
        url, url⟩
  | _ => none

/-- **The label of a link fits its row**, unless it is out of sight or the links have already
overflowed. -/
def LinkFits (r : PageRenderer) (cb : Callback) : Prop :=
  ∀ c ∈ r.linkCall o cb, LabelStays c.label c.start ∨ c.Unseen o ∨ r.links.overflowed = true

/-- Where a callback leads, if it lays out a link whose last row is in the window. -/
def shownLinks (r : PageRenderer) (cb : Callback) : List Span :=
  match r.linkCall o cb with
  | none => []
  | some c => if c.Shows o then [c.target] else []

/-- **The links of a run are right**: what is recorded can be pressed, and what is seen is recorded,
in order, or else reported. -/
structure LinksRight (r : PageRenderer) (cs : List Callback) : Prop where
  /-- A box that is recorded can be pressed. -/
  pressable : Runs.Along (step o) (fun r cb => ∀ c ∈ r.linkCall o cb, ∀ b,
    (r.step o cb).links.boxes = r.links.boxes ++ [b] → Pressable r.scroll (c.stretches o) b) r cs
  /-- Nothing that is seen is lost unreported. -/
  kept : (Runs.run (step o) r cs).links.boxes.map LinkBox.target
      = Runs.outputs (step o) (shownLinks o) r cs ∨
    (Runs.run (step o) r cs).links.overflowed = true

/-! ## What records a link -/

/-- The links stay. -/
def SameLinks (r s : PageRenderer) : Prop := s.links = r.links

variable {o}

/-- **Drawing records no link.** -/
theorem frame_sameLinks : Frame o SameLinks where
  refl _ := rfl
  trans h k := Eq.trans k h
  issue _ _ h := h
  down _ _ _ _ := rfl
  pen _ _ _ := rfl
  note _ _ _ := rfl

variable {r : PageRenderer} {cb : Callback} {c : LinkCall}

/-- A callback that lays out no link records none. -/
theorem links_of_none (hc : r.linkCall o cb = none) : (r.step o cb).links = r.links := by
  cases cb with
  | blankLine =>
    show (r.blankLine o).links = r.links
    rw [blankLine]
    split <;> rfl
  | text t s => exact frame_sameLinks.emitRun t _ (r.openText o t s)
  | link => cases hc
  | divider ch s => exact frame_sameLinks.drawDivider ch (r.setDepth s).freshRow
  | field f s =>
    show (r.onField o f s).links = r.links
    rw [onField]
    split
    · exact frame_sameLinks.textField f s (r.setDepth s).freshRow
    · exact frame_sameLinks.boxField f (r.setDepth s).freshRow
  | anchor => rfl
  | lineEnd s => exact frame_sameLinks.headGap s _ (r.setDepth s)
  | tableBegin s => rfl
  | tableRow row s => rfl
  | tableEnd s =>
    show (r.onTableEnd o s).links = r.links
    rw [onTableEnd, tableFlush]
    split_ifs
    · rfl
    · rfl
    · exact frame_sameLinks.drawTable (r.setDepth s).fitTable
  | image alt url s =>
    exact (frame_sameLinks.emitRun _ _ _).trans (frame_sameLinks.emitRun _ _ (r.setDepth s))
  | part => cases hc

/-- The link that a callback lays out begins with the links so far, in the same window. -/
theorem linkCall_spec (hc : r.linkCall o cb = some c) :
    (∃ q, c.start = freshRow q) ∧ r.step o cb = c.after o ∧
      c.start.links = r.links ∧ c.start.clip = r.clip ∧ c.start.scroll = r.scroll := by
  cases cb with
  | link label target s =>
    obtain rfl := Option.some.inj hc
    exact ⟨⟨_, rfl⟩, rfl, rfl, rfl, rfl⟩
  | part url s =>
    obtain rfl := Option.some.inj hc
    have hlinks : (emitHere o (.ofList [0x5B, 0x2B, 0x5D, 0x20]) (r.setDepth s)).links = r.links :=
      frame_sameLinks.emitRun _ _ (r.setDepth s)
    have hpen := onlyPen_emitRun (o := o) (.ofList [0x5B, 0x2B, 0x5D, 0x20]) r.invert (r.setDepth s)
    exact ⟨⟨_, rfl⟩, rfl, hlinks, hpen.window_eq.1, hpen.window_eq.2⟩
  | _ => cases hc

/-- A row is visible when it is in the window. -/
theorem rowVisible_iff (hclip : r.clip = true) : r.rowVisible = true ↔ Inside r.scroll r.y := by
  simp [rowVisible, hclip, Inside]

end PageRenderer

open PageRenderer

namespace LinkCall

variable {o : Options} {c : LinkCall} {q : PageRenderer}

/-- The box of a label. -/
def box (o : Options) (c : LinkCall) : LinkBox :=
  { x := c.start.x, y := c.start.screenY
    w := if c.start.x < (c.emitted o).x then (c.emitted o).x - c.start.x else 0
    h := (c.emitted o).rowH o, target := c.target, targetLen := UInt16.ofNat c.target.len }

/-- **The box is recorded when the pen is left on a row in the window.** -/
theorem links_after (hclip : c.start.clip = true) :
    (c.after o).links = if Inside c.start.scroll (c.emitted o).y then c.start.links.add (c.box o)
      else c.start.links := by
  have hlinks : (c.emitted o).links = c.start.links :=
    frame_sameLinks.emitRun c.label c.start.invert c.start
  have hpen : OnlyPen c.start (c.emitted o) := onlyPen_emitRun c.label c.start.invert c.start
  have hafter : (c.after o).links
      = if (c.emitted o).rowVisible then (c.emitted o).links.add (c.box o)
      else (c.emitted o).links := rfl
  have hvis := rowVisible_iff (r := c.emitted o) (hpen.clip_eq.trans hclip)
  rw [hpen.window_eq.2] at hvis
  simp only [hafter, hlinks, hvis]

/-- Where a label goes that fits its row. -/
theorem goes (hq : c.start = freshRow q) (hfit : LabelStays c.label c.start) :
    Goes o c.start (c.emitted o) (c.stretches o) ∧ (c.emitted o).x.toNat ≤ lcdWidth := by
  have hgoes := goes_emitRun (o := o) c.label c.start.invert q (hq ▸ hfit)
  rw [← hq] at hgoes
  exact hgoes

/-- The last row of a label that fits its row is the one that the pen is left on. -/
theorem lastRow_eq (h : Goes o c.start (c.emitted o) (c.stretches o)) :
    c.lastRow o = (c.emitted o).y := by
  rw [lastRow, h.y_eq]
  by_cases hne : c.stretches o = []
  · rw [hne]
    rfl
  · rw [List.getLast?_eq_some_getLast hne]
    exact (h.tiles.on_row (List.getLast_mem hne)).1

/-- **The box of a label that fits its row can be pressed.** -/
theorem pressable_box (hq : c.start = freshRow q) (hfit : LabelStays c.label c.start)
    (hin : Inside c.start.scroll (c.emitted o).y) :
    Pressable c.start.scroll (c.stretches o) (c.box o) := by
  obtain ⟨h, hle⟩ := goes (o := o) hq hfit
  have hx : c.start.x.toNat ≤ (c.emitted o).x.toNat := h.tiles.le
  -- the width is the way of the pen, which does not go back
  have hw : c.start.x.toNat + (c.box o).w.toNat = (c.emitted o).x.toNat := by
    show c.start.x.toNat + (if c.start.x < (c.emitted o).x then
      (c.emitted o).x - c.start.x else 0).toNat = (c.emitted o).x.toNat
    split
    next hlt =>
      rw [UInt16.toNat_sub_of_le _ _ (UInt16.le_iff_toNat_le.mpr hx)]
      omega
    next hge =>
      have heq : ¬ c.start.x.toNat < (c.emitted o).x.toNat := fun hlt =>
        hge (UInt16.lt_iff_toNat_lt.mpr hlt)
      show c.start.x.toNat + 0 = _
      omega
  have hlast := h.tiles.lastStretches_eq
  rw [h.y_eq] at hin
  refine ⟨⟨?_, ?_⟩, fun s hs => ?_, fun px => ?_⟩
  · show (c.start.y - c.start.scroll).toNat < lcdHeight
    have hlow := UInt16.le_iff_toNat_le.mp hin.1
    have hhigh := hin.2
    rw [UInt16.toNat_sub_of_le _ _ hin.1]
    omega
  · show c.start.x.toNat + (c.box o).w.toNat ≤ lcdWidth
    rw [hw]
    exact hle
  · rw [hlast] at hs
    obtain ⟨hrow, hheight⟩ := h.tiles.on_row hs
    refine ⟨?_, ?_⟩
    · rw [hrow]
      rfl
    · rw [hheight]
      exact h.pen.rowH_eq o
  · rw [hlast, h.tiles.covers, ← hw]
    exact Iff.rfl

end LinkCall

/-! ## Whole passes -/

/-- Links overflow only when the table is full. -/
def LinkTable.Full (l : LinkTable) : Prop := l.overflowed = true → maxLinks ≤ l.boxes.length

/-- One more link: recorded if there is room, and reported if there is none. -/
theorem LinkTable.add_spec {l : LinkTable} (hfull : l.Full) (b : LinkBox) : (l.add b).Full ∧
    (l.overflowed = false ∧ (l.add b).boxes = l.boxes ++ [b] ∨
      (l.add b).boxes = l.boxes ∧ (l.add b).overflowed = true) := by
  rw [LinkTable.add]
  split
  next hroom =>
    have hno : l.overflowed ≠ true := fun ho => absurd (hfull ho) (Nat.not_le.mpr hroom)
    exact ⟨fun ho => absurd ho hno, .inl ⟨Bool.eq_false_iff.mpr hno, rfl⟩⟩
  next hroom => exact ⟨fun _ => Nat.not_lt.mp hroom, .inr ⟨rfl, rfl⟩⟩

namespace PageRenderer

variable {o : Options} {r : PageRenderer} {cb : Callback}

/-- What one callback does to the links, where labels fit. -/
structure LinkStep (o : Options) (r : PageRenderer) (cb : Callback) : Prop where
  /-- A box that is recorded can be pressed. -/
  pressable : ∀ c ∈ r.linkCall o cb, ∀ b,
    (r.step o cb).links.boxes = r.links.boxes ++ [b] → Pressable r.scroll (c.stretches o) b
  /-- What is seen is recorded. -/
  kept : r.links.overflowed = false ∧ (r.step o cb).links.boxes.map LinkBox.target
      = r.links.boxes.map LinkBox.target ++ shownLinks o r cb ∨
    (r.step o cb).links.overflowed = true
  /-- The table overflows only when it is full. -/
  full : (r.step o cb).links.Full

/-- A callback that leaves the links alone, and shows none. -/
theorem LinkStep.of_eq (hlinks : (r.step o cb).links = r.links) (hfull : r.links.Full)
    (hshown : r.links.overflowed = false → shownLinks o r cb = []) : LinkStep o r cb := by
  refine ⟨fun c _ b hb => ?_, ?_, hlinks ▸ hfull⟩
  · rw [hlinks] at hb
    exact absurd hb.symm (by simp)
  · rw [hlinks]
    rcases Bool.eq_false_or_eq_true r.links.overflowed with ho | ho
    · exact .inr ho
    · refine .inl ⟨ho, ?_⟩
      rw [hshown ho, List.append_nil]

/-- **One callback.** -/
theorem linkStep (hclip : r.clip = true) (hfull : r.links.Full) (hfit : LinkFits o r cb) :
    LinkStep o r cb := by
  cases hc : r.linkCall o cb with
  | none => exact .of_eq (links_of_none hc) hfull fun _ => by rw [shownLinks, hc]
  | some c =>
    obtain ⟨⟨q, hq⟩, hstep, hlinks, hcliper, hscroll⟩ := linkCall_spec hc
    have hfit := hfit c hc
    have hafter := LinkCall.links_after (o := o) (c := c) (hcliper.trans hclip)
    have hshown : shownLinks o r cb = if c.Shows o then [c.target] else [] := by
      rw [shownLinks, hc]
    have hlast (h : LabelStays c.label c.start) :
        c.Shows o ↔ Inside c.start.scroll (c.emitted o).y := by
      rw [LinkCall.Shows, LinkCall.lastRow_eq (LinkCall.goes hq h).1]
    rw [← hstep, hlinks] at hafter
    by_cases hin : Inside c.start.scroll (c.emitted o).y
    · rw [if_pos hin] at hafter
      obtain ⟨hfull', hadd⟩ := LinkTable.add_spec hfull (c.box o)
      rcases hadd with ⟨hroom, hboxes⟩ | ⟨hboxes, hover⟩
      · -- recorded: the label fits, for it is in sight
        have hlabel : LabelStays c.label c.start := by
          rcases hfit with h | h | h
          · exact h
          · exact absurd hin h.2
          · exact absurd (h.symm.trans hroom) Bool.noConfusion
        refine ⟨fun c' hc' b hb => ?_, .inl ⟨hroom, ?_⟩, hafter ▸ hfull'⟩
        · obtain rfl := Option.some.inj (hc.symm.trans hc')
          rw [hafter, hboxes] at hb
          obtain rfl := List.singleton_inj.mp (List.append_cancel_left hb)
          rw [← hscroll]
          exact LinkCall.pressable_box hq hlabel hin
        · rw [hafter, hboxes, List.map_append, hshown, if_pos ((hlast hlabel).mpr hin)]
          rfl
      · -- no room: reported
        refine ⟨fun c' _ b hb => ?_, .inr (hafter ▸ hover), hafter ▸ hfull'⟩
        rw [hafter, hboxes] at hb
        exact absurd hb.symm (by simp)
    · rw [if_neg hin] at hafter
      -- out of sight: nothing is recorded, and nothing was to be
      refine .of_eq hafter hfull fun ho => ?_
      rw [hshown, if_neg]
      rcases hfit with h | h | h
      · exact fun hs => hin ((hlast h).mp hs)
      · exact h.1
      · exact absurd (h.symm.trans ho) Bool.noConfusion

/-- A run of such callbacks. -/
theorem linksRight_run {cs : List Callback} (hr : Sound o r) (hfull : r.links.Full)
    (hfits : Runs.Along (step o) (LinkFits o) r cs) {shown : List Span}
    (hshown : r.links.boxes.map LinkBox.target = shown ∨ r.links.overflowed = true) :
    Runs.Along (step o) (LinkStep o) r cs ∧
      ((Runs.run (step o) r cs).links.boxes.map LinkBox.target
          = shown ++ Runs.outputs (step o) (shownLinks o) r cs ∨
        (Runs.run (step o) r cs).links.overflowed = true) := by
  induction cs generalizing r shown with
  | nil => exact ⟨trivial, by simpa using hshown⟩
  | cons cb cs ih =>
    have hstep := linkStep hr.clip_eq hfull hfits.1
    -- once links have overflowed they stay so
    have hnext : (r.step o cb).links.boxes.map LinkBox.target = shown ++ shownLinks o r cb ∨
        (r.step o cb).links.overflowed = true := by
      rcases hstep.kept with ⟨hroom, hkept⟩ | hover
      · rcases hshown with heq | ho
        · exact .inl (heq ▸ hkept)
        · exact absurd (ho.symm.trans hroom) Bool.noConfusion
      · exact .inr hover
    obtain ⟨halong, hrest⟩ := ih ((descends_step r cb).sound hr) hstep.full hfits.2 hnext
    refine ⟨⟨hstep, halong⟩, ?_⟩
    rw [Runs.outputs_cons, ← List.append_assoc]
    exact hrest

/-- **In a pass in which the label of every link fits its row**, every box that is recorded can be
pressed, and every link whose last row is seen is recorded, in order, or reported. -/
theorem links_right (o : Options) (r : PageRenderer) (scroll : UInt16) (cs : List Callback)
    (hfits : Runs.Along (step o) (LinkFits o) (r.begin scroll) cs) :
    LinksRight o (r.begin scroll) cs := by
  have hnone : (r.begin scroll).links.boxes.map LinkBox.target = [] ∨
      (r.begin scroll).links.overflowed = true := .inl rfl
  obtain ⟨halong, hkept⟩ := linksRight_run (sound_begin r scroll) (fun ho => by cases ho) hfits
    hnone
  refine ⟨?_, hkept⟩
  exact halong.mono fun _ _ hstep => hstep.pressable

/-- A link of one letter, behind a partial. -/
theorem links_right_letter : LinksRight { fonts := Display.blankFonts }
    ((fresh fun _ => 0).begin 0)
    [.part (.ofList [0x62]) {}, .link (.ofList [0x61]) (.ofList [0x62]) {}] := by
  refine links_right _ _ _ _ ⟨fun c hc => .inl ?_, fun c hc => .inl ?_, trivial⟩
  · obtain rfl := Option.some.inj hc
    decide +kernel
  · obtain rfl := Option.some.inj hc
    decide +kernel

/-- A label of 67 letters, one more than a row holds. -/
def wideLabel : Span := ⟨fun _ => 0x61, 67⟩

/-- **A label that wraps** is boxed on the row it begins on. -/
theorem wrapped_label_misboxed : ¬ LinksRight { fonts := Display.blankFonts }
    ((fresh fun _ => 0).begin 0) [.link wideLabel (.ofList [0x62]) {}] := by
  intro h
  obtain ⟨c, hc⟩ : ∃ c : LinkCall, c = ⟨freshRow (setDepth {} ((fresh fun _ => 0).begin 0)),
      wideLabel, .ofList [0x62]⟩ := ⟨_, rfl⟩
  have hcall : linkCall { fonts := Display.blankFonts } ((fresh fun _ => 0).begin 0)
      (.link wideLabel (.ofList [0x62]) {}) = some c := by
    rw [hc]
    rfl
  have hbox := h.pressable.1 c hcall (c.box { fonts := Display.blankFonts })
  have hafter : (c.after { fonts := Display.blankFonts }).links
      = c.start.links.add (c.box { fonts := Display.blankFonts }) := by
    rw [LinkCall.links_after (hc ▸ rfl), if_pos (by rw [hc]; decide +kernel)]
  have hpressable := hbox (by
    rw [(linkCall_spec hcall).2.1, hafter, hc]
    rfl)
  -- the 67th letter stands on the second row, 15 pixels down
  obtain ⟨s, hs, hrow⟩ : ∃ s ∈ lastStretches (c.stretches { fonts := Display.blankFonts }),
      s.row = 15 := by
    rw [hc]
    decide +kernel
  have hy := (hpressable.on_row s hs).1
  rw [hrow, hc] at hy
  cases hy

end PageRenderer

end Thicket.Page
