import Thicket.Page.ReadBounds
import Thicket.Page.Twins

/-! # What is read decides what is drawn

Runs of the same length that have the same bytes where the renderer reads them are drawn alike. So
a run whose sequences are not cut off is drawn the same whatever lies behind it. -/

namespace Thicket.Page

open Thicket.Lcd Thicket.Page.Span PageRenderer

variable {o : Options} {t u : Span} {invert : Bool} {r : PageRenderer}

/-- **Two runs agree where one is read.** -/
structure AgreesOn (is : List Nat) (t u : Span) : Prop where
  /-- They are equally long. -/
  len_eq : u.len = t.len
  /-- They have the same bytes there. -/
  byte_eq : ∀ i ∈ is, u.byte i = t.byte i

namespace AgreesOn

variable {is js : List Nat}

/-- Fewer indices. -/
theorem mono (h : AgreesOn is t u) (hsub : ∀ j ∈ js, j ∈ is) : AgreesOn js t u :=
  ⟨h.len_eq, fun j hj => h.byte_eq j (hsub j hj)⟩

/-- The first of two lists. -/
theorem first (h : AgreesOn (is ++ js) t u) : AgreesOn is t u :=
  h.mono fun _ hj => List.mem_append_left _ hj

/-- The second. -/
theorem second (h : AgreesOn (is ++ js) t u) : AgreesOn js t u :=
  h.mono fun _ hj => List.mem_append_right _ hj

/-- One of many lists. -/
theorem of_mem {ι : Type} {ks : List ι} {f : ι → List Nat} (h : AgreesOn (ks.flatMap f) t u) {k : ι}
    (hk : k ∈ ks) : AgreesOn (f k) t u :=
  h.mono fun _ hj => List.mem_flatMap_of_mem hk hj

/-- The lengths of the sequences. -/
theorem seqLenAt_eq (h : AgreesOn is t u) {k : Nat} (hk : k ∈ is) :
    u.seqLenAt k = t.seqLenAt k := by
  rw [seqLenAt, seqLenAt, h.byte_eq k hk]

/-- The sequences at the indices of a loop that reads them. -/
theorem steps_eq {a b : Nat} (h : AgreesOn is t u) (hsub : ∀ k ∈ t.steps a b, k ∈ is) :
    u.steps a b = t.steps a b :=
  (positions_congr fun k hk => (h.seqLenAt_eq (hsub k hk)).symm).symm

/-- **A sequence that is copied.** -/
theorem glyph_eq {k : Nat} (h : AgreesOn (t.copied k) t u) : u.glyph k = t.glyph k := by
  rw [glyph, glyph, h.seqLenAt_eq List.mem_cons_self]
  refine List.map_congr_left fun b hb => h.byte_eq _ (List.mem_cons_of_mem k ?_)
  have hlt := List.mem_range.mp hb
  rw [List.mem_range'_1]
  omega

end AgreesOn

/-! ## Prose -/

/-- **Every sequence of prose is read.** -/
theorem AgreesOn.sequence_eq {edge adv : Nat}
    (h : AgreesOn (t.words.flatMap (t.wordReads edge adv)) t u) {k : Nat}
    (hk : k ∈ t.steps 0 t.len) : AgreesOn (t.copied k) t u := by
  obtain ⟨w, hw, hkw⟩ := List.mem_flatMap.mp (t.flatMap_words ▸ hk)
  have hread := h.of_mem hw
  have hcopied := hread.second
  split at hcopied
  next => exact hcopied.of_mem hkw
  next =>
    obtain ⟨hsteps, hspaces⟩ := steps_of_mem_words hw
    rcases List.mem_append.mp (hsteps ▸ hkw) with hspace | hword
    · -- a space is one byte, and is read to find the word
      obtain ⟨hle, hlt⟩ := mem_positions hspace
      have hsp : w.sp = t.skipSpaces w.i := congrArg Word.sp (t.eq_wordAt_of_mem_words hw).1
      have hbefore : k < t.skipSpaces w.i := hsp ▸ hlt
      have hone : t.seqLenAt k = 1 := seqLen_of_isSpace (hspaces k hspace)
      refine hread.first.first.first.mono fun i hi => ?_
      have hik : i = k := by
        rw [copied, hone] at hi
        simpa using hi
      rw [hik]
      exact mem_tested_one hle hbefore
    · exact hcopied.of_mem hword

/-- **Prose reads all that counts**: the bytes of the run, and those of its last sequence. -/
theorem AgreesOn.reads {edge adv : Nat}
    (h : AgreesOn (t.words.flatMap (t.wordReads edge adv)) t u) : t.Reads u where
  len_eq := h.len_eq
  byte_eq k hk := by
    obtain ⟨j, hj, hle, hlt⟩ := exists_position_of_lt t.seqLenAt_pos (Nat.zero_le k) hk
    refine (h.sequence_eq hj).byte_eq k (List.mem_cons_of_mem j ?_)
    rw [List.mem_range'_1]
    exact ⟨hle, hlt⟩
  glyph_eq _ hk := (h.sequence_eq hk).glyph_eq

/-! ## Preformatted text -/

/-- **Preformatted cells**: what comes behind the clip is not read. -/
theorem AgreesOn.emitLiteralFrom_eq {n fuel k : Nat} {r : PageRenderer}
    (h : AgreesOn (t.literalReads r.x.toNat (positionsUpTo t.seqLenAt n fuel k)) t u) :
    emitLiteralFrom o u invert (positionsUpTo u.seqLenAt n fuel k) r
      = emitLiteralFrom o t invert (positionsUpTo t.seqLenAt n fuel k) r := by
  induction fuel generalizing k r with
  | zero => rfl
  | succ fuel ih =>
    rw [positionsUpTo] at h
    rw [positionsUpTo, positionsUpTo]
    split
    next hk =>
      rw [if_pos hk, literalReads] at h
      rw [emitLiteralFrom, emitLiteralFrom]
      split
      next => rfl
      next hin =>
        rw [if_neg hin] at h
        have hrest : AgreesOn (t.copied k ++ t.literalReads (r.x.toNat + fontAdvance)
            (positionsUpTo t.seqLenAt n fuel (k + t.seqLenAt k))) t u :=
          h.mono fun _ hj => List.mem_cons_of_mem k hj
        have hcell : r.emitLiteralCell o u invert k = r.emitLiteralCell o t invert k := by
          rw [emitLiteralCell, emitLiteralCell, hrest.first.glyph_eq]
        have hx : (r.emitLiteralCell o t invert k).x.toNat = r.x.toNat + fontAdvance :=
          emitLiteralCell_x t invert k hin
        rw [hcell, h.seqLenAt_eq List.mem_cons_self]
        refine ih ?_
        rw [hx]
        exact hrest.second
    next => rfl

/-- **What a run draws is decided by what it reads.** -/
theorem AgreesOn.emitRun_eq (h : AgreesOn (t.runReads r.toLayout) t u) :
    r.emitRun o u invert = r.emitRun o t invert := by
  rw [runReads] at h
  rw [PageRenderer.emitRun, PageRenderer.emitRun]
  split at h
  next hlit =>
    rw [if_pos hlit, if_pos hlit, emitLiteral, emitLiteral, h.len_eq]
    refine AgreesOn.emitLiteralFrom_eq ?_
    rw [freshRow_x]
    exact h
  next hlit =>
    have hrun := emitRun_congr (o := o) invert h.reads r
    rwa [PageRenderer.emitRun, PageRenderer.emitRun] at hrun

/-! ## Text -/

/-- A codepoint that is decoded. -/
theorem AgreesOn.headCodepoint_eq {k : Nat} (h : AgreesOn (t.decodeReads k) t u) :
    headCodepoint u k = headCodepoint t k := by
  have hk : u.byte k = t.byte k := h.byte_eq k List.mem_cons_self
  have hlen : u.seqLenAt k = t.seqLenAt k := h.seqLenAt_eq List.mem_cons_self
  rw [headCodepoint, headCodepoint, hlen, hk]
  split
  next => rfl
  next htwo =>
    rw [decodeReads, if_pos htwo] at h
    rw [h.byte_eq (k + 1) (by simp)]
  next hthree =>
    rw [decodeReads, if_neg (by omega), if_pos hthree] at h
    rw [h.byte_eq (k + 1) (by simp), h.byte_eq (k + 2) (by simp)]
  next => rfl

/-- **Whether all of a line is carried**: what comes behind a codepoint that is not is not read. -/
theorem AgreesOn.all_carried_eq {want : Head} {n fuel k : Nat}
    (h : AgreesOn ((t.decoded o want (positionsUpTo t.seqLenAt n fuel k)).flatMap t.decodeReads) t
      u) :
    ((positionsUpTo u.seqLenAt n fuel k).all fun k => headHas o want (headCodepoint u k))
      = (positionsUpTo t.seqLenAt n fuel k).all fun k => headHas o want (headCodepoint t k) := by
  induction fuel generalizing k with
  | zero => rfl
  | succ fuel ih =>
    rw [positionsUpTo] at h
    rw [positionsUpTo, positionsUpTo]
    split
    next hk =>
      rw [if_pos hk, decoded, List.flatMap_cons] at h
      rw [List.all_cons, List.all_cons, h.first.headCodepoint_eq,
        h.first.seqLenAt_eq List.mem_cons_self]
      by_cases hhas : headHas o want (headCodepoint t k) = true
      · rw [if_pos hhas] at h
        rw [ih h.second]
      · rw [Bool.not_eq_true _ |>.mp hhas, Bool.false_and, Bool.false_and]
    next => rfl

/-- What `onText` does before it emits its run. -/
theorem AgreesOn.openText_eq {s : Style}
    (h : AgreesOn ((if r.rowOpen = false ∧ s.align ≠ .left then t.steps 0 t.len else [])
      ++ (if Decodes o s r then
        (t.decoded o (wantedHead s.depth) (t.steps 0 t.len)).flatMap t.decodeReads else [])) t u) :
    r.openText o u s = r.openText o t s := by
  have haligned : ∀ l : Layout, l.rowOpen = r.rowOpen →
      alignedX u s.align l = alignedX t s.align l := by
    intro l hl
    by_cases hcells : r.rowOpen = false ∧ s.align ≠ .left
    · have hread := h.first
      rw [if_pos hcells] at hread
      have hsteps : u.steps 0 u.len = t.steps 0 t.len := by
        rw [h.len_eq]
        exact hread.steps_eq fun _ hk => hk
      rw [alignedX, alignedX, cells, cells, hsteps]
    · have hno : ∀ v : Span, alignedX v s.align l = l.x := fun v =>
        if_neg fun hc => hcells ⟨hl ▸ hc.1, hc.2.1⟩
      rw [hno, hno]
  have hclimbs : ∀ l : Layout, l.rowOpen = r.rowOpen → (Climbs o u s l ↔ Climbs o t s l) := by
    intro l hl
    rw [Climbs, Climbs, hl, h.len_eq]
    refine and_congr_right fun hhead => and_congr_right fun hheading =>
      and_congr_right fun hopen => and_congr_right fun _ => ?_
    have hread := h.second
    rw [if_pos ⟨hhead, hheading, hopen⟩] at hread
    have hall := hread.all_carried_eq
    rw [steps, steps, positions, positions, hall]
  have hladder : ∀ q : PageRenderer, q.rowOpen = r.rowOpen →
      q.climbLadder o u s = q.climbLadder o t s := by
    intro q hq
    simp only [climbLadder, hclimbs q.toLayout hq]
  have halign : ((r.startText s).freshRow).alignPen u s.align
      = ((r.startText s).freshRow).alignPen t s.align := by
    rw [alignPen, alignPen, haligned (r.startText s).freshRow.toLayout rfl]
  rw [openText, openText, halign,
    hladder (((r.startText s).freshRow.alignPen t s.align).setBackground s) rfl]

/-- **What `onText` does is decided by what it reads.** -/
theorem onText_congr {s : Style} (hlen : u.len = t.len)
    (h : ∀ x ∈ r.textReads o t s, u.byte x.index = t.byte x.index) :
    r.onText o u s = r.onText o t s := by
  have hagrees : AgreesOn ((if r.rowOpen = false ∧ s.align ≠ .left then t.steps 0 t.len else [])
      ++ (if Decodes o s r then
        (t.decoded o (wantedHead s.depth) (t.steps 0 t.len)).flatMap t.decodeReads else [])
      ++ t.runReads (r.openText o t s).toLayout) t u :=
    ⟨hlen, fun i hi => h ⟨i, t.len⟩ (List.mem_map_of_mem hi)⟩
  have hrun : (r.openText o t s).emitRun o u (r.openText o t s).invert
      = (r.openText o t s).emitRun o t (r.openText o t s).invert := hagrees.second.emitRun_eq
  rw [onText, onText, hagrees.first.openText_eq, emitHere, emitHere, hrun]

/-- **Whatever lies behind a run that is not cut off**, it is drawn the same. -/
theorem onText_behind {s : Style} (hwithin : TextWithin o t s r) (hlen : u.len = t.len)
    (h : ∀ i < t.len, u.byte i = t.byte i) : r.onText o u s = r.onText o t s := by
  refine onText_congr hlen fun x hx => h x.index ?_
  have hindex := inBounds_textReads.mpr hwithin x hx
  obtain ⟨i, -, rfl⟩ := List.mem_map.mp hx
  exact hindex

/-! ## Text fields -/

/-- A cell of a text field. -/
theorem paint_fieldCell_congr {f : Field} {s : Style} {vk : Nat} (r : PageRenderer)
    (hlen : u.len = f.value.len) (h : vk < f.value.len →
      r.rowVisible = true ∧ f.masked = false → ∀ i ∈ f.value.copied vk, u.byte i = f.value.byte i) :
    r.paint (fieldCellOps { f with value := u } s vk) = r.paint (fieldCellOps f s vk) := by
  rw [PageRenderer.paint, PageRenderer.paint]
  split
  next hv =>
    have hdraw : fieldCellOps { f with value := u } s vk = fieldCellOps f s vk := by
      funext l y
      simp only [fieldCellOps, hlen]
      split
      next hvk =>
        cases hmask : f.masked with
        | true => rfl
        | false => rw [AgreesOn.glyph_eq ⟨hlen, h hvk ⟨hv, hmask⟩⟩]
      next => rfl
    rw [hdraw]
  next => rfl

/-- **What the cells of a text field show is decided by what they read.** -/
theorem fieldCells_congr {f : Field} {s : Style} (n vk : Nat) (r : PageRenderer)
    (hlen : u.len = f.value.len)
    (h : ∀ i ∈ fieldReads f s n vk r, u.byte i = f.value.byte i) :
    fieldCells { f with value := u } s n vk r = fieldCells f s n vk r := by
  induction n generalizing vk r with
  | zero => rfl
  | succ n ih =>
    rw [fieldReads] at h
    rw [fieldCells, fieldCells]
    split
    next => rfl
    next hin =>
      rw [if_neg hin, List.forall_mem_append] at h
      obtain ⟨hcell, hrest⟩ := h
      have hops : r.paint (fieldCellOps { f with value := u } s vk)
          = r.paint (fieldCellOps f s vk) := by
        refine paint_fieldCell_congr r hlen fun hvk hshown => ?_
        rwa [if_pos hvk, if_pos hshown] at hcell
      have hnext : (if vk < u.len then vk + u.seqLenAt vk else vk)
          = if vk < f.value.len then vk + f.value.seqLenAt vk else vk := by
        rw [hlen]
        split
        next hvk =>
          rw [if_pos hvk] at hcell
          have hbyte : u.byte vk = f.value.byte vk := by
            refine hcell vk ?_
            split
            · exact List.mem_cons_self
            · exact List.mem_singleton_self vk
          rw [seqLenAt, seqLenAt, hbyte]
        next => rfl
      rw [hops, hnext]
      exact ih _ _ hrest

/-- **What `onField` does is decided by what it reads** of its value. -/
theorem onField_congr {f : Field} {s : Style} (hlen : u.len = f.value.len)
    (h : f.kind = .text → ∀ x ∈ r.reads o (.field f s), u.byte x.index = f.value.byte x.index) :
    r.onField o { f with value := u } s = r.onField o f s := by
  rw [onField, onField]
  dsimp only
  split
  next htext =>
    have hread := h htext
    rw [PageRenderer.reads, if_pos htext] at hread
    refine fieldCells_congr _ _ _ hlen fun i hi => ?_
    exact hread ⟨i, f.value.len⟩ (List.mem_map_of_mem hi)
  next => rfl

/-- **Whatever lies behind a value that is not cut off**, its field is drawn the same. -/
theorem onField_behind {f : Field} {s : Style} (hwithin : StepWithin o r (.field f s))
    (hlen : u.len = f.value.len) (h : ∀ i < f.value.len, u.byte i = f.value.byte i) :
    r.onField o { f with value := u } s = r.onField o f s := by
  refine onField_congr hlen fun htext x hx => h x.index ?_
  have hindex := inBounds_fieldReads.mpr hwithin x hx
  rw [PageRenderer.reads, if_pos htext] at hx
  obtain ⟨i, -, rfl⟩ := List.mem_map.mp hx
  exact hindex

end Thicket.Page
