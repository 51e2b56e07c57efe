import Thicket.Page.Height
import Thicket.Page.Slices

/-! # Prose and the margins

Where a run of prose lays out its glyphs. The margin is tested in front of a word, in 16 bits, and
only if the pen is past the left edge: a word behind spaces that open a row is not tested at all,
and a word of 2^16 pixels is taken for a short one. -/

namespace Thicket.Page

open Thicket.Lcd Thicket.Page.Span

/-! ## The cells of a log -/

/-- A cell in which a glyph is drawn. -/
structure GlyphCell where
  /-- Where it starts. -/
  left : Nat
  /-- Where it ends. -/
  stop : Nat
  deriving DecidableEq

/-- The cell of a glyph that is not blank. -/
def glyphCell (x : UInt16) (g : List UInt8) (w : Nat) : Option GlyphCell :=
  if isBlank g then none else some ⟨x.toNat, x.toNat + w⟩

/-- The cell that an operation draws a glyph in. -/
def cellOf : LcdOp → Option GlyphCell
  | .drawText x _ g _ => glyphCell x g fontAdvance
  | .drawTextBig x _ g _ => glyphCell x g bigFontW
  | .drawTextBold x _ g f _ => glyphCell x g (boldW f)
  | _ => none

/-- A cell does not end before it starts. -/
theorem left_le_stop {op : LcdOp} {c : GlyphCell} (h : cellOf op = some c) : c.left ≤ c.stop := by
  have hcell {x : UInt16} {g : List UInt8} {w : Nat} (hg : glyphCell x g w = some c) :
      c.left ≤ c.stop := by
    rw [glyphCell] at hg
    split at hg
    · cases hg
    · obtain rfl := Option.some.inj hg
      exact Nat.le_add_right _ _
  cases op <;> first | exact hcell h | cases h

/-- **The cells of the rows of a log**: of the first row, and of the rows below it. -/
def cellRows : List Entry → List GlyphCell × List (List GlyphCell)
  | [] => ([], [])
  | .down _ :: es => ([], (cellRows es).1 :: (cellRows es).2)
  | .draw _ op :: es => ((cellOf op).toList ++ (cellRows es).1, (cellRows es).2)

/-- Two cells do not overlap. -/
def GlyphCell.Apart (a b : GlyphCell) : Prop := a.stop ≤ b.left ∨ b.stop ≤ a.left

instance (a b : GlyphCell) : Decidable (a.Apart b) := inferInstanceAs (Decidable (_ ∨ _))

/-- **Glyphs inside the margins**, on a row that is taken up to `pen` and on those below it. -/
structure InMargins (edge pen : Nat) (log : List Entry) : Prop where
  /-- Between the left edge and the right margin. -/
  margins : ∀ row ∈ (cellRows log).1 :: (cellRows log).2, ∀ c ∈ row,
    edge ≤ c.left ∧ c.stop ≤ right
  /-- The cells of a row never overlap. -/
  apart : ∀ row ∈ (cellRows log).1 :: (cellRows log).2, row.Pairwise GlyphCell.Apart
  /-- Nor do they overlap what the row has already. -/
  behind : ∀ c ∈ (cellRows log).1, pen ≤ c.left

/-- Every cell is inside the margins and begins where the one before it ends, or later. -/
def Ordered (edge : Nat) : Nat → List Entry → Prop
  | _, [] => True
  | _, .down _ :: es => Ordered edge 0 es
  | pen, .draw _ op :: es =>
      match cellOf op with
      | none => Ordered edge pen es
      | some c => (edge ≤ c.left ∧ pen ≤ c.left ∧ c.stop ≤ right) ∧ Ordered edge c.stop es

/-- How far the row is taken at the end of a log. -/
def takenUpTo : Nat → List Entry → Nat
  | pen, [] => pen
  | _, .down _ :: es => takenUpTo 0 es
  | pen, .draw _ op :: es => takenUpTo (((cellOf op).map GlyphCell.stop).getD pen) es

variable {edge pen : Nat}

/-- One log after another. -/
theorem ordered_append (l m : List Entry) :
    Ordered edge pen (l ++ m) ↔ Ordered edge pen l ∧ Ordered edge (takenUpTo pen l) m := by
  induction l generalizing pen with
  | nil => simp [Ordered, takenUpTo]
  | cons e l ih =>
    cases e with
    | down h => exact ih
    | draw y op =>
      rw [List.cons_append, Ordered, Ordered, takenUpTo]
      cases cellOf op with
      | none => exact ih
      | some c => exact (and_congr Iff.rfl ih).trans and_assoc.symm

/-- One log after another. -/
theorem takenUpTo_append (l m : List Entry) :
    takenUpTo pen (l ++ m) = takenUpTo (takenUpTo pen l) m := by
  induction l generalizing pen with
  | nil => rfl
  | cons e l ih =>
    cases e with
    | down h => exact ih
    | draw y op => exact ih

/-- A row that is taken less far has room for the same cells. -/
theorem Ordered.mono {pen' : Nat} (hle : pen ≤ pen') {log : List Entry}
    (h : Ordered edge pen' log) : Ordered edge pen log := by
  induction log generalizing pen pen' with
  | nil => trivial
  | cons e es ih =>
    cases e with
    | down w => exact h
    | draw y op =>
      rw [Ordered] at h ⊢
      cases hc : cellOf op with
      | none =>
        rw [hc] at h
        exact ih hle h
      | some c =>
        rw [hc] at h
        exact ⟨⟨h.1.1, hle.trans h.1.2.1, h.1.2.2⟩, h.2⟩

/-- A row that is taken less far is not taken further in the end. -/
theorem takenUpTo_mono {pen' : Nat} (hle : pen ≤ pen') (log : List Entry) :
    takenUpTo pen log ≤ takenUpTo pen' log := by
  induction log generalizing pen pen' with
  | nil => exact hle
  | cons e es ih =>
    cases e with
    | down w => exact Nat.le_refl _
    | draw y op =>
      rw [takenUpTo, takenUpTo]
      cases cellOf op with
      | none => exact ih hle
      | some c => exact Nat.le_refl _

/-- A new row in front of cells inside the margins. -/
theorem InMargins.down {log : List Entry} (h : InMargins edge 0 log) (a : Advance) :
    InMargins edge pen (.down a :: log) := by
  refine ⟨?_, ?_, fun c hc => absurd hc List.not_mem_nil⟩
  · intro row hrow c hc
    rcases List.mem_cons.mp hrow with rfl | hrow
    · exact absurd hc List.not_mem_nil
    · exact h.margins row hrow c hc
  · intro row hrow
    rcases List.mem_cons.mp hrow with rfl | hrow
    · exact List.Pairwise.nil
    · exact h.apart row hrow

/-- A cell in front of cells inside the margins, and left of them. -/
theorem InMargins.draw {log : List Entry} {y : UInt16} {op : LcdOp} {c : GlyphCell}
    (hop : cellOf op = some c) (hedge : edge ≤ c.left) (hpen : pen ≤ c.left)
    (hstop : c.stop ≤ right) (h : InMargins edge c.stop log) :
    InMargins edge pen (.draw y op :: log) := by
  have hrow : (cellRows (.draw y op :: log)).1 = c :: (cellRows log).1 := by
    rw [cellRows, hop]
    rfl
  have hrows : (cellRows (.draw y op :: log)).2 = (cellRows log).2 := by rw [cellRows]
  refine ⟨?_, ?_, ?_⟩
  · rw [hrow, hrows]
    intro row hmem d hd
    rcases List.mem_cons.mp hmem with rfl | hmem
    · rcases List.mem_cons.mp hd with rfl | hd
      · exact ⟨hedge, hstop⟩
      · exact h.margins _ List.mem_cons_self d hd
    · exact h.margins row (List.mem_cons_of_mem _ hmem) d hd
  · rw [hrow, hrows]
    intro row hmem
    rcases List.mem_cons.mp hmem with rfl | hmem
    · exact List.Pairwise.cons (fun d hd => .inl (h.behind d hd)) (h.apart _ List.mem_cons_self)
    · exact h.apart row (List.mem_cons_of_mem _ hmem)
  · rw [hrow]
    intro d hd
    rcases List.mem_cons.mp hd with rfl | hd
    · exact hpen
    · exact (hpen.trans (left_le_stop hop)).trans (h.behind d hd)

/-- **Cells in order are inside the margins**, and apart. -/
theorem Ordered.inMargins {log : List Entry} (h : Ordered edge pen log) :
    InMargins edge pen log := by
  induction log generalizing pen with
  | nil =>
    refine ⟨?_, ?_, ?_⟩ <;> simp [cellRows]
  | cons e es ih =>
    cases e with
    | down a => exact InMargins.down (ih h) a
    | draw y op =>
      rw [Ordered] at h
      cases hop : cellOf op with
      | none =>
        -- a background or a line: the row has no cell more
        rw [hop] at h
        have hsame : cellRows (.draw y op :: es) = cellRows es := by
          rw [cellRows, hop]
          rfl
        have hrest := ih h
        exact ⟨hsame ▸ hrest.margins, hsame ▸ hrest.apart, hsame ▸ hrest.behind⟩
      | some c =>
        rw [hop] at h
        obtain ⟨⟨hedge, hpen, hstop⟩, hlater⟩ := h
        exact InMargins.draw hop hedge hpen hstop (ih hlater)

/-- A glyph past a margin. -/
def Outside (edge : Nat) (log : List Entry) : Prop :=
  ∃ y op c, .draw y op ∈ log ∧ cellOf op = some c ∧ ¬ (edge ≤ c.left ∧ c.stop ≤ right)

/-- The cell of a glyph that is drawn is a cell of a row. -/
theorem exists_row_of_mem {log : List Entry} {y : UInt16} {op : LcdOp} {c : GlyphCell}
    (hmem : .draw y op ∈ log) (hop : cellOf op = some c) :
    ∃ row ∈ (cellRows log).1 :: (cellRows log).2, c ∈ row := by
  induction log with
  | nil => cases hmem
  | cons e es ih =>
    rcases List.mem_cons.mp hmem with rfl | hmem
    · exact ⟨_, List.mem_cons_self, by simp [cellRows, hop]⟩
    · obtain ⟨row, hrow, hc⟩ := ih hmem
      cases e with
      | down w => exact ⟨row, List.mem_cons_of_mem _ hrow, hc⟩
      | draw z op' =>
        rcases List.mem_cons.mp hrow with rfl | hrow
        · exact ⟨_, List.mem_cons_self, List.mem_append_right _ hc⟩
        · exact ⟨row, List.mem_cons_of_mem _ hrow, hc⟩

/-- A glyph past a margin is not inside. -/
theorem Outside.not_inMargins {log : List Entry} (h : Outside edge log) :
    ¬ InMargins edge pen log := by
  obtain ⟨y, op, c, hmem, hop, hout⟩ := h
  intro hin
  obtain ⟨row, hrow, hc⟩ := exists_row_of_mem hmem hop
  exact hout (hin.margins row hrow c hc)

/-! ## Pieces of a run -/

namespace PageRenderer

variable {o : Options} (t : Span) (invert : Bool) {r s u : PageRenderer}

/-- **Glyphs laid out in order** from one pen to another, every visibility test answering true. -/
structure Lays (r s : PageRenderer) : Prop where
  /-- Only the pen moved. -/
  pen : OnlyPen r s
  /-- What has been drawn. -/
  ordered : ∃ m, s.log = r.log ++ m ∧ Ordered r.leftEdge r.x.toNat m ∧
    takenUpTo r.x.toNat m ≤ s.x.toNat

/-- **A glyph past a margin** has been laid out on the way. -/
def Spoils (r s : PageRenderer) : Prop := ∃ m, s.log = r.log ++ m ∧ Outside r.leftEdge m

/-- Nothing done. -/
theorem Lays.refl (r : PageRenderer) : Lays r r :=
  ⟨.refl r, [], (List.append_nil _).symm, trivial, Nat.le_refl _⟩

/-- One piece after another. -/
theorem Lays.trans (h : Lays r s) (k : Lays s u) : Lays r u := by
  obtain ⟨m, hm, hord, htaken⟩ := h.ordered
  obtain ⟨n, hn, hord', htaken'⟩ := k.ordered
  rw [h.pen.leftEdge_eq] at hord'
  refine ⟨h.pen.trans k.pen, m ++ n, ?_, ?_, ?_⟩
  · rw [hn, hm, List.append_assoc]
  · exact (ordered_append m n).mpr ⟨hord, hord'.mono htaken⟩
  · rw [takenUpTo_append]
    exact (takenUpTo_mono htaken n).trans htaken'

/-- What is spoiled stays so. -/
theorem Spoils.of_isPrefix (h : Spoils r s) (hlog : s.log <+: u.log) : Spoils r u := by
  obtain ⟨m, hm, y, op, c, hmem, hop, hout⟩ := h
  obtain ⟨n, hn⟩ := hlog
  refine ⟨m ++ n, ?_, y, op, c, List.mem_append_left n hmem, hop, hout⟩
  rw [← hn, hm, List.append_assoc]

/-- A piece may come first. -/
theorem Spoils.of_pen (k : Spoils s u) (hpen : OnlyPen r s) (hlog : r.log <+: s.log) :
    Spoils r u := by
  obtain ⟨m, hm⟩ := hlog
  obtain ⟨n, hn, y, op, c, hmem, hop, hout⟩ := k
  rw [hpen.leftEdge_eq] at hout
  refine ⟨m ++ n, ?_, y, op, c, List.mem_append_right m hmem, hop, hout⟩
  rw [hn, ← hm, List.append_assoc]

/-- A piece may come first. -/
theorem Lays.spoils (h : Lays r s) (k : Spoils s u) : Spoils r u := by
  obtain ⟨m, hm, -, -⟩ := h.ordered
  exact k.of_pen h.pen ⟨m, hm.symm⟩

/-- Operations that draw no glyph. -/
theorem ordered_of_cellOf (edge pen : Nat) (y : UInt16) {ops : List LcdOp}
    (h : ∀ op ∈ ops, cellOf op = none) :
    Ordered edge pen (ops.map (.draw y)) ∧ takenUpTo pen (ops.map (.draw y)) = pen := by
  induction ops with
  | nil => exact ⟨trivial, rfl⟩
  | cons op ops ih =>
    have hop := h op List.mem_cons_self
    rw [List.map_cons, Ordered, takenUpTo, hop]
    exact ih fun p hp => h p (List.mem_cons_of_mem op hp)

/-- The cell of a glyph. -/
theorem cellOf_glyphOp (l : Layout) (x y : UInt16) (g : List UInt8) (cp : UInt32) (black : Bool) :
    cellOf (l.glyphOp o x y g cp black) = glyphCell x g l.advance := by
  rw [Layout.glyphOp, Layout.advance]
  cases l.head with
  | h1 => rfl
  | h2 => rfl
  | h3 => rfl
  | none =>
    cases hb : l.bold with
    | false => rfl
    | true =>
      simp only [Bool.true_and, if_true]
      split <;> rfl

/-- A background draws no glyph. -/
theorem cellOf_of_mem_bgOps {l : Layout} {x y w : UInt16} {luma : UInt8} {op : LcdOp}
    (h : op ∈ l.bgOps o x y w luma) : cellOf op = none := by
  rcases eq_fill_of_mem_bgOps o h with rfl | rfl
  · rfl
  · rfl

/-- An underline draws no glyph. -/
theorem cellOf_of_mem_underlineOps {l : Layout} {y w : UInt16} {op : LcdOp}
    (h : op ∈ underlineOps o invert w l y) : cellOf op = none := by
  rw [eq_hline_of_mem_underlineOps o invert h]
  rfl

/-- The log after a drawing. -/
theorem log_paint (hclip : r.clip = false) (d : Drawing) :
    (r.paint d).log = r.log ++ (d r.toLayout r.screenY).map (.draw r.y) := by
  have hv : r.rowVisible = true := by
    rw [rowVisible, hclip]
    rfl
  rw [paint, if_pos hv]
  rfl

/-- The log after a codepoint of the row's face. -/
theorem log_emitGlyph (hclip : r.clip = false) (d : List UInt8 → Drawing) (k : Nat) :
    (r.emitGlyph o t d k).log
      = r.log ++ (d (t.glyph k) r.toLayout r.screenY).map (.draw r.y) :=
  log_paint (r := r.noteUnless (r.faceHas o (codepointOf (t.glyph k))) (codepointOf (t.glyph k)))
    hclip (d (t.glyph k))

/-! ## Cells -/

/-- A drawing of a glyph, with rectangles and rules around it. -/
def DrawsGlyph (o : Options) (d : List UInt8 → Drawing) : Prop :=
  ∀ g l y, isBlank g = false → ∃ pre post cp black,
    d g l y = pre ++ l.glyphOp o l.x y g cp black :: post ∧
      (∀ op ∈ pre, cellOf op = none) ∧ ∀ op ∈ post, cellOf op = none

/-- A cell of a word. -/
theorem drawsGlyph_cellOps : DrawsGlyph o (cellOps o invert) := by
  intro g l y hb
  refine ⟨_, _, _, _, cellOps_of_glyph o invert hb l y, ?_,
    fun op hop => cellOf_of_mem_underlineOps invert hop⟩
  intro op hop
  split_ifs at hop
  · obtain rfl := List.mem_singleton.mp hop
    rfl
  · obtain rfl := List.mem_singleton.mp hop
    rfl
  · cases hop

/-- A cell of a broken word. -/
theorem drawsGlyph_brokenOps : DrawsGlyph o (brokenOps o invert) :=
  fun g _ _ _ => ⟨[], [], codepointOf g, !invert, rfl, by simp, by simp⟩

variable {t} {k : Nat} {d : List UInt8 → Drawing}

/-- **A glyph inside the margins.** -/
theorem lays_emitGlyph (hclip : r.clip = false) (hd : DrawsGlyph o d)
    (hb : isBlank (t.glyph k) = false) (hedge : r.leftEdge ≤ r.x.toNat)
    (hfit : r.x.toNat + r.advance ≤ right) :
    Lays r (r.emitGlyph o t d k) ∧ (r.emitGlyph o t d k).x.toNat = r.x.toNat + r.advance := by
  have hx : (r.emitGlyph o t d k).x.toNat = r.x.toNat + r.advance := by
    rw [(emitGlyph_pen t d r k).1, UInt16.toNat_add, toNat_advance]
    have hright : right = 398 := rfl
    omega
  refine ⟨⟨onlyPen_emitGlyph t d r k, _, log_emitGlyph t hclip d k, ?_⟩, hx⟩
  obtain ⟨pre, post, cp, black, hops, hpre, hpost⟩ := hd (t.glyph k) r.toLayout r.screenY hb
  have hcell : cellOf (r.glyphOp o r.x r.screenY (t.glyph k) cp black)
      = some ⟨r.x.toNat, r.x.toNat + r.advance⟩ := by
    rw [cellOf_glyphOp, glyphCell, hb]
    rfl
  obtain ⟨hord, htaken⟩ := ordered_of_cellOf r.leftEdge r.x.toNat r.y hpre
  obtain ⟨hord', htaken'⟩ := ordered_of_cellOf r.leftEdge (r.x.toNat + r.advance) r.y hpost
  rw [hops, List.map_append, List.map_cons]
  constructor
  · refine (ordered_append _ _).mpr ⟨hord, ?_⟩
    rw [htaken, Ordered, hcell]
    exact ⟨⟨hedge, Nat.le_refl _, hfit⟩, hord'⟩
  · rw [takenUpTo_append, htaken, takenUpTo, hcell]
    exact (htaken'.trans hx.symm).le

/-- **A glyph past a margin.** -/
theorem spoils_emitGlyph (hclip : r.clip = false) (hd : DrawsGlyph o d)
    (hb : isBlank (t.glyph k) = false)
    (hout : ¬ (r.leftEdge ≤ r.x.toNat ∧ r.x.toNat + r.advance ≤ right)) :
    Spoils r (r.emitGlyph o t d k) := by
  obtain ⟨pre, post, cp, black, hops, -, -⟩ := hd (t.glyph k) r.toLayout r.screenY hb
  refine ⟨_, log_emitGlyph t hclip d k, r.y, r.glyphOp o r.x r.screenY (t.glyph k) cp black,
    ⟨r.x.toNat, r.x.toNat + r.advance⟩, ?_, ?_, hout⟩
  · rw [hops]
    simp
  · rw [cellOf_glyphOp, glyphCell, hb]
    rfl

/-- **The cells of a word between the margins.** -/
theorem lays_emitCells {ks : List Nat} (hclip : r.clip = false)
    (hks : ∀ k ∈ ks, isBlank (t.glyph k) = false) (hedge : r.leftEdge ≤ r.x.toNat)
    (hfit : r.x.toNat + ks.length * r.advance ≤ right) :
    Lays r (Runs.run (emitCell o t invert) r ks) ∧
      (Runs.run (emitCell o t invert) r ks).x.toNat = r.x.toNat + ks.length * r.advance := by
  induction ks generalizing r with
  | nil => exact ⟨.refl r, by simp⟩
  | cons k ks ih =>
    rw [List.length_cons, Nat.succ_mul] at hfit ⊢
    obtain ⟨hcell, hx⟩ := lays_emitGlyph (o := o) hclip (drawsGlyph_cellOps invert)
      (hks k List.mem_cons_self) hedge (by omega)
    have hpen := hcell.pen
    obtain ⟨hrest, hx'⟩ := ih (hpen.clip_eq.trans hclip)
      (fun j hj => hks j (List.mem_cons_of_mem k hj))
      (by rw [hpen.leftEdge_eq, hx]; omega)
      (by rw [hpen.advance_eq, hx]; omega)
    rw [hpen.advance_eq, hx] at hx'
    exact ⟨hcell.trans hrest, by rw [Runs.run_cons]; exact hx'.trans (by omega)⟩

/-- **The cells of a word that does not lie between the margins.** -/
theorem spoils_emitCells {ks : List Nat} (hclip : r.clip = false) (hne : ks ≠ [])
    (hks : ∀ k ∈ ks, isBlank (t.glyph k) = false)
    (hout : ¬ (r.leftEdge ≤ r.x.toNat ∧ r.x.toNat + ks.length * r.advance ≤ right)) :
    Spoils r (Runs.run (emitCell o t invert) r ks) := by
  induction ks generalizing r with
  | nil => exact absurd rfl hne
  | cons k ks ih =>
    have hk := hks k List.mem_cons_self
    rw [Runs.run_cons]
    by_cases hin : r.leftEdge ≤ r.x.toNat ∧ r.x.toNat + r.advance ≤ right
    · -- this cell is inside, so a later one is not
      obtain ⟨hcell, hx⟩ := lays_emitGlyph (o := o) hclip (drawsGlyph_cellOps invert) hk hin.1 hin.2
      have hpen := hcell.pen
      rw [List.length_cons, Nat.succ_mul] at hout
      refine hcell.spoils (ih (hpen.clip_eq.trans hclip) ?_
        (fun j hj => hks j (List.mem_cons_of_mem k hj)) ?_)
      · rintro rfl
        rw [List.length_nil] at hout
        omega
      · rw [hpen.leftEdge_eq, hpen.advance_eq, hx]
        omega
    · exact (spoils_emitGlyph hclip (drawsGlyph_cellOps invert) hk hin).of_isPrefix
        (isPrefix_emitCells t invert ks _)

/-! ## Broken words -/

/-- **The break in front of a cell** leaves room for it, and does not move a pen that is not past
the left edge. -/
theorem lays_wrapIfNeeded (r : PageRenderer) :
    Lays r (r.wrapIfNeeded o r.advance) ∧
      (r.wrapIfNeeded o r.advance).x.toNat + r.advance ≤ right ∧
      (r.leftEdge ≤ r.x.toNat → r.leftEdge ≤ (r.wrapIfNeeded o r.advance).x.toNat) ∧
      (r.x.toNat ≤ r.leftEdge → (r.wrapIfNeeded o r.advance).x = r.x) := by
  have hedge := r.leftEdge_bounds
  have hadv := r.advance_bounds
  have hright : right = 398 := rfl
  rw [wrapIfNeeded]
  split
  next hwrap =>
    have hx := (newline_row (o := o) r).2
    refine ⟨⟨onlyPen_newline r, [.down (.row r.ownRowH)], rfl, trivial, Nat.zero_le _⟩, ?_, ?_, ?_⟩
    · omega
    · intro _
      omega
    · intro hle
      omega
  next hstay => exact ⟨.refl r, by omega, fun hle => hle, fun _ => rfl⟩

/-- A blank of a broken word draws no glyph that is not blank, and the pen moves on. -/
theorem lays_brokenBlank (hclip : r.clip = false) (hb : isBlank (t.glyph k) = true) :
    Lays r (r.emitBrokenCell o t invert k) ∧
      (r.emitBrokenCell o t invert k).x.toNat
        = (r.wrapIfNeeded o r.advance).x.toNat + r.advance := by
  obtain ⟨hwrap, hfit, -, -⟩ := lays_wrapIfNeeded (o := o) r
  have hright : right = 398 := rfl
  have hx : (r.emitBrokenCell o t invert k).x.toNat
      = (r.wrapIfNeeded o r.advance).x.toNat + r.advance := by
    rw [emitBrokenCell, (emitGlyph_pen t _ _ k).1, UInt16.toNat_add, toNat_advance,
      hwrap.pen.advance_eq]
    omega
  have hlog := log_emitGlyph (o := o) t (hwrap.pen.clip_eq.trans hclip) (brokenOps o invert) k
  have hblank : ∀ op ∈ brokenOps o invert (t.glyph k) (r.wrapIfNeeded o r.advance).toLayout
      (r.wrapIfNeeded o r.advance).screenY, cellOf op = none := by
    intro op hop
    obtain rfl := List.mem_singleton.mp hop
    rw [cellOf_glyphOp, glyphCell, hb]
    rfl
  obtain ⟨hord, htaken⟩ := ordered_of_cellOf (r.wrapIfNeeded o r.advance).leftEdge
    (r.wrapIfNeeded o r.advance).x.toNat (r.wrapIfNeeded o r.advance).y hblank
  refine ⟨hwrap.trans ⟨onlyPen_emitGlyph t _ _ k, _, hlog, hord, ?_⟩, hx⟩
  rw [htaken]
  exact (Nat.le_add_right _ _).trans hx.ge

/-- **The blanks in front of a broken word** take it past the left edge, or do not. -/
theorem lays_brokenBlanks (ks : List Nat) (hclip : r.clip = false)
    (hks : ∀ k ∈ ks, isBlank (t.glyph k) = true) :
    Lays r (Runs.run (emitBrokenCell o t invert) r ks) ∧
      (r.leftEdge ≤ (Runs.run (emitBrokenCell o t invert) r ks).x.toNat ↔
        r.leftEdge ≤ r.x.toNat + ks.length * r.advance) := by
  induction ks generalizing r with
  | nil => exact ⟨.refl r, by simp⟩
  | cons k ks ih =>
    obtain ⟨-, -, hpast, hstay⟩ := lays_wrapIfNeeded (o := o) r
    obtain ⟨hcell, hx⟩ := lays_brokenBlank (o := o) invert hclip (hks k List.mem_cons_self)
    have hpen := hcell.pen
    obtain ⟨hrest, hiff⟩ := ih (hpen.clip_eq.trans hclip)
      (fun j hj => hks j (List.mem_cons_of_mem k hj))
    rw [hpen.leftEdge_eq, hpen.advance_eq, hx] at hiff
    rw [Runs.run_cons]
    refine ⟨hcell.trans hrest, hiff.trans ?_⟩
    rw [List.length_cons, Nat.succ_mul]
    -- left of the edge a blank never breaks the row, so the pen only adds up
    rcases Nat.le_total r.leftEdge r.x.toNat with hle | hle
    · have hq := hpast hle
      constructor
      · intro _
        omega
      · intro _
        omega
    · rw [hstay hle]
      omega

/-- A glyph of a broken word. -/
theorem lays_brokenGlyph (hclip : r.clip = false) (hb : isBlank (t.glyph k) = false)
    (hedge : r.leftEdge ≤ r.x.toNat) :
    Lays r (r.emitBrokenCell o t invert k) ∧
      r.leftEdge < (r.emitBrokenCell o t invert k).x.toNat := by
  have hadv := r.advance_bounds
  obtain ⟨hwrap, hfit, hpast, -⟩ := lays_wrapIfNeeded (o := o) r
  have hq := hpast hedge
  obtain ⟨hcell, hx⟩ := lays_emitGlyph (o := o) (hwrap.pen.clip_eq.trans hclip)
    (drawsGlyph_brokenOps invert) hb (by rw [hwrap.pen.leftEdge_eq]; exact hq)
    (by rw [hwrap.pen.advance_eq]; exact hfit)
  refine ⟨hwrap.trans hcell, ?_⟩
  rw [emitBrokenCell, hx, hwrap.pen.advance_eq]
  omega

/-- **The glyphs of a broken word** from a pen that is not left of the edge. -/
theorem lays_brokenGlyphs {ks : List Nat} (hclip : r.clip = false) (hne : ks ≠ [])
    (hks : ∀ k ∈ ks, isBlank (t.glyph k) = false) (hedge : r.leftEdge ≤ r.x.toNat) :
    Lays r (Runs.run (emitBrokenCell o t invert) r ks) ∧
      r.leftEdge < (Runs.run (emitBrokenCell o t invert) r ks).x.toNat := by
  induction ks generalizing r with
  | nil => exact absurd rfl hne
  | cons k ks ih =>
    obtain ⟨hcell, hx⟩ := lays_brokenGlyph (o := o) invert hclip (hks k List.mem_cons_self) hedge
    have hpen := hcell.pen
    rw [Runs.run_cons]
    -- after one glyph the pen is past the edge, which is where the next one starts
    by_cases hlast : ks = []
    · rw [hlast, Runs.run_nil]
      exact ⟨hcell, hx⟩
    · obtain ⟨hrest, hx'⟩ := ih (hpen.clip_eq.trans hclip) hlast
        (fun j hj => hks j (List.mem_cons_of_mem k hj))
        (by rw [hpen.leftEdge_eq]; exact Nat.le_of_lt hx)
      rw [hpen.leftEdge_eq] at hx'
      exact ⟨hcell.trans hrest, hx'⟩

/-- **The glyphs of a broken word** from a pen that is left of the edge. -/
theorem spoils_brokenGlyphs {ks : List Nat} (hclip : r.clip = false) (hne : ks ≠ [])
    (hks : ∀ k ∈ ks, isBlank (t.glyph k) = false) (hedge : r.x.toNat < r.leftEdge) :
    Spoils r (Runs.run (emitBrokenCell o t invert) r ks) := by
  cases ks with
  | nil => exact absurd rfl hne
  | cons k ks =>
    obtain ⟨hwrap, -, -, hstay⟩ := lays_wrapIfNeeded (o := o) r
    have hcell : Spoils (r.wrapIfNeeded o r.advance) (r.emitBrokenCell o t invert k) := by
      refine spoils_emitGlyph (hwrap.pen.clip_eq.trans hclip) (drawsGlyph_brokenOps invert)
        (hks k List.mem_cons_self) ?_
      rw [hwrap.pen.leftEdge_eq, hstay (Nat.le_of_lt hedge)]
      omega
    rw [Runs.run_cons]
    exact (hwrap.spoils hcell).of_isPrefix (isPrefix_emitBroken t invert ks _)

/-! ## Words -/

/-- A space is blank. -/
theorem isBlank_of_isSpace (h : isSpace (t.byte k) = true) : isBlank (t.glyph k) = true := by
  have hone : t.seqLenAt k = 1 := seqLen_of_isSpace h
  simp [isBlank, glyph, hone, peek, h]

/-- The glyphs of a word. -/
theorem not_isBlank_of_mem_steps {i : Nat} (hk : k ∈ t.steps (t.wordAt i).sp (t.wordAt i).w) :
    isBlank (t.glyph k) = false :=
  isBlank_glyph t (t.not_isSpace_of_mem_steps hk)

/-- **The break in front of a word, or its spaces**: no glyph is drawn, and the pen is at the left
edge of the next row, or behind the spaces. -/
theorem breakOrLead_spec (hclip : r.clip = false) (w : Word) :
    (∃ m, (r.breakOrLead o t invert w).log = r.log ++ m ∧ Ordered r.leftEdge r.x.toNat m ∧
        takenUpTo r.x.toNat m ≤ r.x.toNat ∧
        (Wraps t r.leftEdge r.advance r.x w → takenUpTo r.x.toNat m = 0)) ∧
      (Wraps t r.leftEdge r.advance r.x w →
        (r.breakOrLead o t invert w).x.toNat = r.leftEdge) ∧
      (¬ Wraps t r.leftEdge r.advance r.x w →
        (r.breakOrLead o t invert w).x.toNat
          = (r.x.toNat + (leadW r.advance w).toNat) % 65536) := by
  rw [breakOrLead]
  split
  next hwrap =>
    -- a wrap: the spaces are dropped, and nothing is taken of the new row
    exact ⟨⟨[.down (.row r.ownRowH)], rfl, trivial, Nat.zero_le _, fun _ => rfl⟩,
      fun _ => (newline_row r).2, fun hno => absurd hwrap hno⟩
  next hno =>
    split
    next hlead =>
      refine ⟨⟨[], (List.append_nil _).symm, trivial, Nat.le_refl _, fun hc => absurd hc hno⟩,
        fun hc => absurd hc hno, fun _ => ?_⟩
      rw [hlead, UInt16.toNat_zero, Nat.add_zero, Nat.mod_eq_of_lt r.x.toNat_lt]
    next hlead =>
      -- spaces: texture and underline, but no glyph
      have hblank : ∀ op ∈ leadOps o invert (leadW r.advance w) r.toLayout r.screenY,
          cellOf op = none := by
        intro op hop
        rcases List.mem_append.mp hop with hop | hop
        · split at hop
          · exact cellOf_of_mem_bgOps hop
          · cases hop
        · exact cellOf_of_mem_underlineOps invert hop
      obtain ⟨hord, htaken⟩ := ordered_of_cellOf r.leftEdge r.x.toNat r.y hblank
      refine ⟨⟨_, log_paint hclip _, hord, htaken.le, fun hc => absurd hc hno⟩,
        fun hc => absurd hc hno, fun _ => ?_⟩
      simp only [emitLead, penOver, toLayout_paint]
      exact UInt16.toNat_add _ _

/-- The width of a word, as it is. -/
def trueW (t : Span) (adv : Nat) (w : Word) : Nat := t.cells w.sp w.w * adv

/-- **A word that stays inside the margins** from a pen on: a word that is broken does if it does
not begin left of the edge; one that is not, if its width fits in 16 bits and either the margin is
tested in front of it or the word, with the spaces in front of it, fits the row. -/
def WordInside (t : Span) (edge adv x : Nat) (w : Word) : Prop :=
  if TooLong t edge adv w then edge ≤ x + (w.sp - w.i) * adv
  else trueW t adv w < 65536 ∧
    (edge < x ∨ (edge ≤ x + (leadW adv w).toNat ∧
      x + (leadW adv w).toNat + trueW t adv w ≤ right))

instance (t : Span) (edge adv x : Nat) (w : Word) : Decidable (WordInside t edge adv x w) :=
  inferInstanceAs (Decidable (ite _ _ _))

/-- A word has glyphs, unless it is the spaces at the end of a run. -/
theorem steps_ne_nil {i : Nat} (h : (t.wordAt i).sp < (t.wordAt i).w) :
    t.steps (t.wordAt i).sp (t.wordAt i).w ≠ [] := by
  rw [steps, positions_eq t.seqLenAt_pos, if_pos h]
  exact List.cons_ne_nil _ _

/-- The spaces in front of a word that is broken: whether they end inside the left edge. -/
theorem lays_leadingBlanks (hclip : r.clip = false) (i : Nat) :
    Lays r (Runs.run (emitBrokenCell o t invert) r (t.steps i (t.wordAt i).sp)) ∧
      (r.leftEdge ≤ (Runs.run (emitBrokenCell o t invert) r (t.steps i (t.wordAt i).sp)).x.toNat ↔
        r.leftEdge ≤ r.x.toNat + ((t.wordAt i).sp - i) * r.advance) := by
  have hblanks := lays_brokenBlanks (o := o) invert (t.steps i (t.wordAt i).sp) hclip fun k hk =>
    isBlank_of_isSpace (t.isSpace_of_mem_steps hk)
  have hcount : (t.steps i (t.wordAt i).sp).length = (t.wordAt i).sp - i :=
    t.length_steps_skipSpaces i
  rw [hcount] at hblanks
  exact hblanks

/-- A width below 2^16 is what its 16 bits say. -/
theorem toNat_wordW {adv : Nat} {w : Word} (h : trueW t adv w < 65536) :
    (wordW t adv w).toNat = trueW t adv w := by
  rw [wordW, UInt16.toNat_ofNat']
  exact Nat.mod_eq_of_lt h

/-- A word that is broken at the margin, inside the margins. -/
theorem lays_longWord (hclip : r.clip = false) {i : Nat}
    (hglyph : (t.wordAt i).sp < (t.wordAt i).w)
    (hin : r.leftEdge ≤ r.x.toNat + ((t.wordAt i).sp - i) * r.advance) :
    Lays r (Runs.run (emitBrokenCell o t invert) r (t.steps i (t.wordAt i).w)) ∧
      r.leftEdge < (Runs.run (emitBrokenCell o t invert) r (t.steps i (t.wordAt i).w)).x.toNat := by
  obtain ⟨hblanks, hiff⟩ := lays_leadingBlanks (o := o) (t := t) invert hclip i
  obtain ⟨hglyphs, hx⟩ := lays_brokenGlyphs (o := o) invert (hblanks.pen.clip_eq.trans hclip)
    (steps_ne_nil hglyph) (fun k hk => not_isBlank_of_mem_steps hk) (by
      rw [hblanks.pen.leftEdge_eq]
      exact hiff.mpr hin)
  rw [hblanks.pen.leftEdge_eq] at hx
  rw [t.steps_word, Runs.run_append]
  exact ⟨hblanks.trans hglyphs, hx⟩

/-- Where a word that is not broken begins, and that it ends in front of the margin. -/
theorem begins_inside {w : Word} (hshort : ¬ TooLong t r.leftEdge r.advance w)
    (hsmall : trueW t r.advance w < 65536)
    (hroom : r.leftEdge < r.x.toNat ∨
      r.leftEdge ≤ r.x.toNat + (leadW r.advance w).toNat ∧
        r.x.toNat + (leadW r.advance w).toNat + trueW t r.advance w ≤ right)
    {x : UInt16} (hwraps : Wraps t r.leftEdge r.advance r.x w → x.toNat = r.leftEdge)
    (hstays : ¬ Wraps t r.leftEdge r.advance r.x w →
      x.toNat = (r.x.toNat + (leadW r.advance w).toNat) % 65536) :
    r.leftEdge ≤ x.toNat ∧ x.toNat + trueW t r.advance w ≤ right ∧
      (¬ Wraps t r.leftEdge r.advance r.x w → r.x.toNat ≤ x.toNat) := by
  have hadv := r.advance_bounds
  have hedge := r.leftEdge_bounds
  have hright : right = 398 := rfl
  by_cases hwrap : Wraps t r.leftEdge r.advance r.x w
  · -- on a row of its own a word fits, for it is not too long
    rw [hwraps hwrap]
    rw [TooLong, toNat_wordW hsmall] at hshort
    simp only [contentW, marginX, lcdWidth] at hshort
    exact ⟨Nat.le_refl _, by omega, fun hno => absurd hwrap hno⟩
  · have hfits : r.leftEdge ≤ r.x.toNat + (leadW r.advance w).toNat ∧
        r.x.toNat + (leadW r.advance w).toNat + trueW t r.advance w ≤ right := by
      -- past the edge the margin has been tested; at the edge the room is a hypothesis
      rcases hroom with hpast | hfits
      · rw [Wraps, toNat_wordW hsmall] at hwrap
        omega
      · exact hfits
    rw [hstays hwrap, Nat.mod_eq_of_lt (by omega)]
    omega

/-- **A word inside the margins.** -/
theorem lays_emitWord (hclip : r.clip = false) {i : Nat}
    (hglyph : (t.wordAt i).sp < (t.wordAt i).w)
    (hin : WordInside t r.leftEdge r.advance r.x.toNat (t.wordAt i)) :
    Lays r (r.emitWord o t invert (t.wordAt i)) ∧
      r.leftEdge < (r.emitWord o t invert (t.wordAt i)).x.toNat := by
  have hne := steps_ne_nil hglyph
  have hadv := r.advance_bounds
  rw [WordInside] at hin
  rw [emitWord]
  split
  next hlong =>
    rw [if_pos hlong] at hin
    exact lays_longWord invert hclip hglyph hin
  next hshort =>
    rw [if_neg hshort] at hin
    obtain ⟨⟨m, hlog, hord, htaken, hzero⟩, hwraps, hstays⟩ :=
      breakOrLead_spec (o := o) (t := t) invert hclip (t.wordAt i)
    have hpen := onlyPen_breakOrLead (o := o) t invert r (t.wordAt i)
    obtain ⟨hbegin, hend, hon⟩ := begins_inside hshort hin.1 hin.2 hwraps hstays
    -- a break starts a new row, on which nothing is taken yet
    have hm : takenUpTo r.x.toNat m ≤ (r.breakOrLead o t invert (t.wordAt i)).x.toNat := by
      by_cases hwrap : Wraps t r.leftEdge r.advance r.x (t.wordAt i)
      · rw [hzero hwrap]
        exact Nat.zero_le _
      · exact htaken.trans (hon hwrap)
    have hfirst : Lays r (r.breakOrLead o t invert (t.wordAt i)) := ⟨hpen, m, hlog, hord, hm⟩
    have hcount : (t.steps (t.wordAt i).sp (t.wordAt i).w).length * r.advance
        = trueW t r.advance (t.wordAt i) := rfl
    have hpos : r.advance ≤ (t.steps (t.wordAt i).sp (t.wordAt i).w).length * r.advance :=
      Nat.le_mul_of_pos_left _ (List.length_pos_iff.mpr hne)
    obtain ⟨hcells, hx⟩ := lays_emitCells (o := o) invert (hpen.clip_eq.trans hclip)
      (fun k hk => not_isBlank_of_mem_steps hk) (by rw [hpen.leftEdge_eq]; exact hbegin)
      (by rw [hpen.advance_eq, hcount]; exact hend)
    rw [hpen.advance_eq] at hx
    exact ⟨hfirst.trans hcells, by omega⟩

/-- **A word that does not stay inside the margins.** -/
theorem spoils_emitWord (hclip : r.clip = false) {i : Nat}
    (hglyph : (t.wordAt i).sp < (t.wordAt i).w)
    (hout : ¬ WordInside t r.leftEdge r.advance r.x.toNat (t.wordAt i)) :
    Spoils r (r.emitWord o t invert (t.wordAt i)) := by
  have hne := steps_ne_nil hglyph
  have hedge := r.leftEdge_bounds
  have hright : right = 398 := rfl
  rw [WordInside] at hout
  rw [emitWord]
  split
  next hlong =>
    rw [if_pos hlong] at hout
    obtain ⟨hblanks, hiff⟩ := lays_leadingBlanks (o := o) (t := t) invert hclip i
    show Spoils r (Runs.run _ r (t.steps i (t.wordAt i).w))
    rw [t.steps_word, Runs.run_append]
    -- the blanks are drawn as glyphs, but it is the first glyph behind them that is out
    refine hblanks.spoils (spoils_brokenGlyphs invert (hblanks.pen.clip_eq.trans hclip) hne
      (fun k hk => not_isBlank_of_mem_steps hk) ?_)
    rw [hblanks.pen.leftEdge_eq]
    exact Nat.lt_of_not_le fun hle => hout (hiff.mp hle)
  next hshort =>
    rw [if_neg hshort] at hout
    obtain ⟨⟨m, hlog, -⟩, hwraps, hstays⟩ :=
      breakOrLead_spec (o := o) (t := t) invert hclip (t.wordAt i)
    have hpen := onlyPen_breakOrLead (o := o) t invert r (t.wordAt i)
    refine Spoils.of_pen ?_ hpen ⟨m, hlog.symm⟩
    refine spoils_emitCells invert (hpen.clip_eq.trans hclip) hne
      (fun k hk => not_isBlank_of_mem_steps hk) ?_
    have hcount : (t.steps (t.wordAt i).sp (t.wordAt i).w).length * r.advance
        = trueW t r.advance (t.wordAt i) := rfl
    rw [hpen.leftEdge_eq, hpen.advance_eq, hcount]
    rintro ⟨hbegin, hend⟩
    have hsmall : trueW t r.advance (t.wordAt i) < 65536 := by omega
    have hwordW := toNat_wordW hsmall
    refine hout ⟨hsmall, ?_⟩
    by_cases hwrap : Wraps t r.leftEdge r.advance r.x (t.wordAt i)
    · exact .inl hwrap.2
    · -- a pen that passes 2^16 comes out left of where it was
      have hx := r.x.toNat_lt
      have hlead := (leadW r.advance (t.wordAt i)).toNat_lt
      rw [hstays hwrap] at hbegin hend
      omega

/-! ## Runs -/

/-- **A run of prose inside the margins**, whatever of it is visible. -/
def ProseInside (o : Options) (t : Span) (invert : Bool) (r : PageRenderer) : Prop :=
  r.literal = true ∨ InMargins r.leftEdge (if r.rowOpen then r.x.toNat else 0)
    (PageRenderer.emitRun o t invert { r with clip := false, log := [] }).log

/-- A word that is broken at the margin, or is as wide as its 16 bits say. -/
def Measured (t : Span) (edge adv : Nat) (w : Word) : Prop :=
  TooLong t edge adv w ∨ trueW t adv w < 65536

instance (t : Span) (edge adv : Nat) (w : Word) : Decidable (Measured t edge adv w) :=
  inferInstanceAs (Decidable (_ ∨ _))

/-- **Words that stay inside the margins** from a pen on: all are measured as they are, and the
first one, in front of which the margin may not be tested, begins and ends in its row. -/
def WordsInside (t : Span) (edge adv x : Nat) (ws : List Word) : Prop :=
  (∀ w ∈ ws, w.sp < w.w → Measured t edge adv w) ∧
    ∀ w ∈ ws.head?, w.sp < w.w → WordInside t edge adv x w

/-- Past the left edge the margin is tested. -/
theorem wordInside_iff_of_lt {edge adv x : Nat} (h : edge < x) (w : Word) :
    WordInside t edge adv x w ↔ Measured t edge adv w := by
  rw [WordInside, Measured]
  split
  next hlong => exact ⟨fun _ => .inl hlong, fun _ => (Nat.le_of_lt h).trans (Nat.le_add_right _ _)⟩
  next hshort =>
    exact ⟨fun hin => .inr hin.1, fun hm => ⟨hm.resolve_left hshort, .inl h⟩⟩

/-- Spaces at the end of a run draw no glyph. -/
theorem ordered_emitWord (hclip : r.clip = false) {i : Nat}
    (hnone : ¬ (t.wordAt i).sp < (t.wordAt i).w) :
    ∃ m, (r.emitWord o t invert (t.wordAt i)).log = r.log ++ m ∧
      Ordered r.leftEdge r.x.toNat m := by
  have hcells : t.steps (t.wordAt i).sp (t.wordAt i).w = [] :=
    positions_of_le (Nat.not_lt.mp hnone)
  have hshort : ¬ TooLong t r.leftEdge r.advance (t.wordAt i) := by
    rw [TooLong, wordW, cells, hcells, List.length_nil, Nat.zero_mul]
    exact Nat.not_lt.mpr (Nat.zero_le _)
  obtain ⟨⟨m, hlog, hord, -⟩, -⟩ := breakOrLead_spec (o := o) (t := t) invert hclip (t.wordAt i)
  refine ⟨m, ?_, hord⟩
  rw [emitWord, if_neg hshort, hcells, Runs.run_nil, hlog]

/-- Past the left edge no more is asked of the first word. -/
theorem wordsInside_iff_of_lt {edge adv x : Nat} (h : edge < x) (ws : List Word) :
    WordsInside t edge adv x ws ↔ ∀ w ∈ ws, w.sp < w.w → Measured t edge adv w := by
  refine and_iff_left_of_imp fun hall w hw hglyph => ?_
  exact (wordInside_iff_of_lt h w).mpr (hall w (List.mem_of_mem_head? hw) hglyph)

/-- The first word and the others. -/
theorem wordsInside_cons {edge adv x : Nat} {w : Word} (ws : List Word) (hglyph : w.sp < w.w) :
    WordsInside t edge adv x (w :: ws) ↔
      WordInside t edge adv x w ∧ ∀ v ∈ ws, v.sp < v.w → Measured t edge adv v := by
  constructor
  · rintro ⟨hall, hfirst⟩
    exact ⟨hfirst w rfl hglyph, fun v hv => hall v (List.mem_cons_of_mem w hv)⟩
  · rintro ⟨hin, hall⟩
    -- the first word is held to more than the others: it may start in the middle of a row
    have hmeasured : Measured t edge adv w := by
      rw [WordInside] at hin
      split at hin
      next hlong => exact .inl hlong
      next => exact .inr hin.1
    refine ⟨?_, ?_⟩
    · intro v hv hv'
      rcases List.mem_cons.mp hv with rfl | hv
      · exact hmeasured
      · exact hall v hv hv'
    · intro v hv _
      obtain rfl := Option.some.inj hv
      exact hin

/-- **The words of a run** are laid out in order within the margins, or one is not. -/
theorem emitWords_spec (hclip : r.clip = false) (fuel i : Nat) :
    (WordsInside t r.leftEdge r.advance r.x.toNat (t.wordsUpTo fuel i) →
      ∃ m, (Runs.run (emitWord o t invert) r (t.wordsUpTo fuel i)).log = r.log ++ m ∧
        Ordered r.leftEdge r.x.toNat m) ∧
    (¬ WordsInside t r.leftEdge r.advance r.x.toNat (t.wordsUpTo fuel i) →
      Spoils r (Runs.run (emitWord o t invert) r (t.wordsUpTo fuel i))) := by
  have hempty (r : PageRenderer) : WordsInside t r.leftEdge r.advance r.x.toNat [] := by
    constructor <;> simp
  -- on the words that are left; only the first one may find the pen at the left edge
  induction fuel generalizing i r with
  | zero => exact ⟨fun _ => ⟨[], (List.append_nil _).symm, trivial⟩, fun h => absurd (hempty r) h⟩
  | succ fuel ih =>
    rw [wordsUpTo]
    split
    next hi =>
      rw [Runs.run_cons]
      by_cases hglyph : (t.wordAt i).sp < (t.wordAt i).w
      · rw [wordsInside_cons _ hglyph]
        by_cases hin : WordInside t r.leftEdge r.advance r.x.toNat (t.wordAt i)
        · -- the pen is past the left edge from here on
          obtain ⟨hword, hx⟩ := lays_emitWord (o := o) invert hclip hglyph hin
          have hpen := hword.pen
          have hnext := ih (r := r.emitWord o t invert (t.wordAt i)) (hpen.clip_eq.trans hclip)
            (t.wordAt i).w
          rw [hpen.leftEdge_eq, hpen.advance_eq, wordsInside_iff_of_lt hx] at hnext
          rw [and_iff_right hin]
          refine ⟨fun hall => ?_, fun hno => hword.spoils (hnext.2 hno)⟩
          obtain ⟨m, hm, hord, htaken⟩ := hword.ordered
          obtain ⟨n, hn, hord'⟩ := hnext.1 hall
          refine ⟨m ++ n, ?_, (ordered_append m n).mpr ⟨hord, hord'.mono htaken⟩⟩
          rw [hn, hm, List.append_assoc]
        · -- a cell out of place stays in the log
          refine ⟨fun hall => absurd hall.1 hin, fun _ => ?_⟩
          exact (spoils_emitWord invert hclip hglyph hin).of_isPrefix
            (isPrefix_emitWords t invert _ _)
      · -- spaces at the end of the run
        have hrest : t.wordsUpTo fuel (t.wordAt i).w = [] := by
          cases fuel with
          | zero => rfl
          | succ fuel => rw [wordsUpTo, if_neg (Nat.not_lt.mpr (t.len_le_of_no_word hglyph))]
        rw [hrest, Runs.run_nil]
        refine ⟨fun _ => ordered_emitWord invert hclip hglyph, fun hno => absurd ?_ hno⟩
        constructor
        · intro w hw hw'
          obtain rfl := List.mem_singleton.mp hw
          exact absurd hw' hglyph
        · intro w hw hw'
          obtain rfl := Option.some.inj hw
          exact absurd hw' hglyph
    next hi =>
      exact ⟨fun _ => ⟨[], (List.append_nil _).symm, trivial⟩, fun h => absurd (hempty r) h⟩

/-- **A run of prose stays inside the margins if and only if its words do**, from the pen that the
indent guard leaves. -/
theorem proseInside_iff (o : Options) (t : Span) (invert : Bool) (r : PageRenderer) :
    ProseInside o t invert r ↔ r.literal = true ∨
      WordsInside t r.leftEdge r.advance r.guardIndent.x.toNat t.words := by
  by_cases hlit : r.literal = true
  · exact ⟨fun _ => .inl hlit, fun _ => .inl hlit⟩
  rw [ProseInside, or_iff_right hlit, or_iff_right hlit]
  -- the run as every visibility test would have it, on an empty log
  have hspec := emitWords_spec (o := o) (t := t) invert
    (r := guardIndent { r with clip := false, log := [] }) rfl t.len 0
  have hrun : (emitRun o t invert { r with clip := false, log := [] }).log
      = (Runs.run (emitWord o t invert) (guardIndent { r with clip := false, log := [] })
          t.words).log := by
    rw [emitRun, if_neg hlit]
  rw [hrun]
  constructor
  · intro hin
    by_contra hno
    obtain ⟨m, hm, hout⟩ := hspec.2 hno
    have hlog : (Runs.run (emitWord o t invert) (guardIndent { r with clip := false, log := [] })
        t.words).log = m := hm.trans (List.nil_append m)
    rw [hlog] at hin
    exact hout.not_inMargins hin
  · intro hwords
    obtain ⟨m, hm, hord⟩ := hspec.1 hwords
    have hlog : (Runs.run (emitWord o t invert) (guardIndent { r with clip := false, log := [] })
        t.words).log = m := hm.trans (List.nil_append m)
    rw [hlog]
    -- an open row is drawn on from its pen, a closed one from anywhere
    refine (hord.mono ?_).inMargins
    show _ ≤ r.guardIndent.x.toNat
    rw [guardIndent]
    cases r.rowOpen with
    | false => exact Nat.zero_le _
    | true => simp

/-- Seventy spaces and a letter. -/
def farLetter : Span := ⟨fun k => if k = 70 then 0x61 else 0x20, 71⟩

/-- **Spaces that open a row** push a letter past the margin, to the pixel 422. -/
theorem letter_past_margin : ¬ ProseInside { fonts := Display.blankFonts } farLetter false
    (((fresh fun _ => 0).begin 0).openText { fonts := Display.blankFonts } farLetter {}) := by
  rintro (hlit | hin)
  · cases hlit
  · have hlast : (⟨422, 428⟩ : GlyphCell).stop ≤ right :=
      (hin.margins _ List.mem_cons_self ⟨422, 428⟩ (by decide)).2
    revert hlast
    decide

end PageRenderer

end Thicket.Page
