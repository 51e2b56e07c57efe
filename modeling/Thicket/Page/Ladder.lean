import Thicket.Page.Height
import Thicket.Page.Ink
import Thicket.Page.Utf8Walk

/-! # The heading ladder

A heading is drawn whole in the face of its depth or whole in the body face. The decision is taken
on a run that opens a row, for that run alone: a later run on the row is drawn in the face there is,
and a run behind spaces that wrapped decides again. -/

namespace Thicket.Page

open Thicket.Lcd Thicket.Page.Span PageRenderer

/-! ## Codepoints -/

/-- **Well-formed UTF-8**: sequences are whole, have their continuation bytes, and take four bytes
only past the basic plane. -/
structure WellFormed (t : Span) : Prop where
  /-- One byte is ASCII. -/
  ascii : ∀ k ∈ t.steps 0 t.len, t.seqLenAt k = 1 → t.byte k < 0x80
  /-- Continuation bytes. -/
  continued : ∀ k ∈ t.steps 0 t.len, ∀ b < t.seqLenAt k, 0 < b →
    k + b < t.len ∧ t.byte (k + b) &&& 0xC0 = 0x80
  /-- Four bytes. -/
  astral : ∀ k ∈ t.steps 0 t.len, t.seqLenAt k = 4 → 0xFFFF < codepointOf (t.glyph k)

instance (t : Span) : Decidable (WellFormed t) :=
  decidable_of_iff (_ ∧ _ ∧ _)
    ⟨fun h => ⟨h.1, h.2.1, h.2.2⟩, fun h => ⟨h.ascii, h.continued, h.astral⟩⟩

/-- A heading face whose tables, which are keyed by 16 bits, hold nothing from U+FFFF on. -/
def BasicFaces (o : Options) : Prop := ∀ want cp, 0xFFFF ≤ cp → headHas o want cp = false

/-- Whether the face that a heading asks for carries a run. -/
def Carried (o : Options) (want : Head) (t : Span) : Prop :=
  ∀ k ∈ t.steps 0 t.len, headHas o want (codepointOf (t.glyph k)) = true

instance (o : Options) (want : Head) (t : Span) : Decidable (Carried o want t) :=
  inferInstanceAs (Decidable (∀ k ∈ _, _))

/-- **The ladder decodes as the drawing does**, up to three bytes. -/
theorem headCodepoint_eq {t : Span} (ht : WellFormed t) {k : Nat} (hk : k ∈ t.steps 0 t.len)
    (hlen : t.seqLenAt k ≠ 4) : headCodepoint t k = codepointOf (t.glyph k) :=
  headCodepoint_of_tails (ht.ascii k hk) (fun b hb hpos => (ht.continued k hk b hb hpos).2) hlen

/-- **The test of the ladder** is whether the face carries the run. -/
theorem all_headHas_iff {o : Options} (ho : BasicFaces o) {t : Span} (ht : WellFormed t)
    (want : Head) :
    ((t.steps 0 t.len).all fun k => headHas o want (headCodepoint t k)) = true ↔
      Carried o want t := by
  rw [List.all_eq_true]
  refine forall₂_congr fun k hk => ?_
  by_cases hfour : t.seqLenAt k = 4
  · -- neither codepoint is in a table
    have hladder : headCodepoint t k = 0xFFFF := by simp [headCodepoint, hfour]
    have hdraw : (0xFFFF : UInt32) ≤ codepointOf (t.glyph k) :=
      UInt32.le_of_lt (ht.astral k hk hfour)
    rw [hladder, ho want _ (UInt32.le_refl _), ho want _ hdraw]
  · rw [headCodepoint_eq ht hk hfour]

/-! ## Glyphs and faces -/

/-- The face in which an operation draws a glyph, and the glyph. -/
def glyphIn : LcdOp → Option (Head × List UInt8)
  | .drawText _ _ g _ => some (.none, g)
  | .drawTextBig _ _ g _ => some (.h1, g)
  | .drawTextBold _ _ g .h2 _ => some (.h2, g)
  | .drawTextBold _ _ g .h3 _ => some (.h3, g)
  | .drawTextBold _ _ g .inline _ => some (.none, g)
  | _ => none

/-- Whether the table that a glyph is drawn from carries its codepoint. -/
def tableHas (o : Options) : LcdOp → Bool
  | .drawText _ _ g _ => (glyphFor o.fonts (codepointOf g)).isSome
  | .drawTextBig _ _ g _ => (o.fonts.big (codepointOf g)).isSome
  | .drawTextBold _ _ g f _ => (o.fonts.bold f (codepointOf g)).isSome
  | _ => true

variable {o : Options} {l : Layout} {x y : UInt16} {g : List UInt8} {black : Bool}

/-- A glyph is drawn in the face of the row. -/
theorem glyphIn_glyphOp (cp : UInt32) :
    glyphIn (l.glyphOp o x y g cp black) = some (l.head, g) := by
  rw [Layout.glyphOp]
  cases l.head with
  | h1 => rfl
  | h2 => rfl
  | h3 => rfl
  | none =>
    dsimp only
    split <;> rfl

/-- **A glyph is a hole** only if neither its face nor the body face carries it. -/
theorem tableHas_glyphOp
    (h : l.head = .none ∨ headHas o l.head (codepointOf g) = true)
    (hbody : (glyphFor o.fonts (codepointOf g)).isSome = true) :
    tableHas o (l.glyphOp o x y g (codepointOf g) black) = true := by
  rw [Layout.glyphOp]
  cases hl : l.head with
  | h1 =>
    rw [hl] at h
    exact h.resolve_left (by simp)
  | h2 =>
    rw [hl] at h
    exact h.resolve_left (by simp)
  | h3 =>
    rw [hl] at h
    exact h.resolve_left (by simp)
  | none =>
    dsimp only
    split
    -- the bold face is chosen only where it carries the glyph
    next hbold => exact (Bool.and_eq_true_iff.mp hbold).2
    next => exact hbody

/-! ## What a run draws -/

/-- Every operation between two states meets a condition. -/
def Adds (p : LcdOp → Prop) (r s : PageRenderer) : Prop :=
  ∃ m, s.log = r.log ++ m ∧ ∀ y op, .draw y op ∈ m → p op

variable {p : LcdOp → Prop} {r s u : PageRenderer} {t : Span} {invert : Bool}

/-- Nothing done. -/
theorem Adds.refl (r : PageRenderer) : Adds p r r :=
  ⟨[], (List.append_nil _).symm, fun _ _ h => absurd h List.not_mem_nil⟩

/-- One piece after another. -/
theorem Adds.trans (h : Adds p r s) (k : Adds p s u) : Adds p r u := by
  obtain ⟨m, hm, hp⟩ := h
  obtain ⟨n, hn, hp'⟩ := k
  refine ⟨m ++ n, by rw [hn, hm, List.append_assoc], fun y op hmem => ?_⟩
  rcases List.mem_append.mp hmem with hmem | hmem
  · exact hp y op hmem
  · exact hp' y op hmem

/-- A weaker condition. -/
theorem Adds.mono {q : LcdOp → Prop} (h : Adds p r s) (hle : ∀ op, p op → q op) : Adds q r s := by
  obtain ⟨m, hm, hp⟩ := h
  exact ⟨m, hm, fun y op hmem => hle op (hp y op hmem)⟩

/-- Drawing. -/
theorem Adds.paint {d : Drawing} (h : ∀ op ∈ d r.toLayout r.screenY, p op) :
    Adds p r (r.paint d) := by
  rw [PageRenderer.paint]
  split
  · refine ⟨_, rfl, fun y op hmem => ?_⟩
    obtain ⟨op', hop', heq⟩ := List.mem_map.mp hmem
    cases heq
    exact h op hop'
  · exact .refl r

/-- A new line. -/
theorem Adds.newline (r : PageRenderer) : Adds p r (r.newline o) :=
  ⟨[.down (.row r.ownRowH)], rfl, fun _ _ h => by simp at h⟩

/-- **An operation of a run**: a glyph is one of the run's, in the face of the row, and it is a hole
only where the face and the body face lack it. -/
def FromRun (o : Options) (t : Span) (face : Head) (op : LcdOp) : Prop :=
  ∀ f g, glyphIn op = some (f, g) → f = face ∧ (∃ k ∈ t.steps 0 t.len, g = t.glyph k) ∧
    ((face = .none ∨ headHas o face (codepointOf g) = true) →
      (glyphFor o.fonts (codepointOf g)).isSome = true → tableHas o op = true)

/-- A rectangle or a rule. -/
theorem fromRun_of_none {face : Head} {op : LcdOp} (h : glyphIn op = none) :
    FromRun o t face op := by
  intro f g hop
  rw [h] at hop
  cases hop

/-- A background draws no glyph. -/
theorem glyphIn_of_mem_bgOps {w : UInt16} {luma : UInt8} {op : LcdOp}
    (h : op ∈ l.bgOps o x y w luma) : glyphIn op = none := by
  rcases eq_fill_of_mem_bgOps o h with rfl | rfl
  · rfl
  · rfl

/-- An underline draws no glyph. -/
theorem glyphIn_of_mem_underlineOps {w : UInt16} {op : LcdOp}
    (h : op ∈ underlineOps o invert w l y) : glyphIn op = none := by
  rw [eq_hline_of_mem_underlineOps o invert h]
  rfl

/-- A glyph of the run. -/
theorem fromRun_glyphOp {k : Nat} (hk : k ∈ t.steps 0 t.len) :
    FromRun o t l.head
      (l.glyphOp o x y (t.glyph k) (codepointOf (t.glyph k)) black) := by
  intro f g hop
  rw [glyphIn_glyphOp] at hop
  obtain ⟨rfl, rfl⟩ := Prod.mk.inj (Option.some.inj hop)
  exact ⟨rfl, ⟨k, hk, rfl⟩, fun h hbody => tableHas_glyphOp h hbody⟩

/-- A cell of a broken word. -/
theorem fromRun_brokenOps {k : Nat} (hk : k ∈ t.steps 0 t.len) :
    ∀ op ∈ brokenOps o invert (t.glyph k) l y, FromRun o t l.head op := by
  intro op hop
  obtain rfl := List.mem_singleton.mp hop
  exact fromRun_glyphOp hk

/-- A cell of a word. -/
theorem fromRun_cellOps {k : Nat} (hk : k ∈ t.steps 0 t.len) :
    ∀ op ∈ cellOps o invert (t.glyph k) l y, FromRun o t l.head op := by
  intro op hop
  rcases List.mem_append.mp hop with hop | hop
  · rcases List.mem_append.mp hop with hop | hop
    · refine fromRun_of_none ?_
      split_ifs at hop
      · exact glyphIn_of_mem_bgOps hop
      · obtain rfl := List.mem_singleton.mp hop
        rfl
      · obtain rfl := List.mem_singleton.mp hop
        rfl
      · cases hop
    · split_ifs at hop
      · cases hop
      · obtain rfl := List.mem_singleton.mp hop
        exact fromRun_glyphOp hk
  · exact fromRun_of_none (glyphIn_of_mem_underlineOps hop)

/-- **Glyphs of a run are printed** in the face of the row, and only the pen moves. -/
structure Prints (o : Options) (t : Span) (r s : PageRenderer) : Prop where
  /-- Only the pen moved. -/
  pen : OnlyPen r s
  /-- What has been drawn. -/
  adds : Adds (FromRun o t r.head) r s

/-- Nothing done. -/
theorem Prints.refl (r : PageRenderer) : Prints o t r r := ⟨.refl r, .refl r⟩

/-- One piece after another. -/
theorem Prints.trans (h : Prints o t r s) (k : Prints o t s u) : Prints o t r u :=
  ⟨h.pen.trans k.pen, h.adds.trans (h.pen.head_eq ▸ k.adds)⟩

/-- A codepoint of the row's face. -/
theorem prints_emitGlyph {d : List UInt8 → Drawing} (r : PageRenderer) {k : Nat}
    (hd : ∀ op ∈ d (t.glyph k) r.toLayout r.screenY, FromRun o t r.head op) :
    Prints o t r (r.emitGlyph o t d k) :=
  ⟨onlyPen_emitGlyph t d r k,
    Adds.paint (r := r.noteUnless (r.faceHas o (codepointOf (t.glyph k))) (codepointOf (t.glyph k)))
      hd⟩

/-- A cell of a broken word. -/
theorem prints_emitBrokenCell (r : PageRenderer) {k : Nat} (hk : k ∈ t.steps 0 t.len) :
    Prints o t r (r.emitBrokenCell o t invert k) := by
  have hwrap : Prints o t r (r.wrapIfNeeded o r.advance) := by
    refine ⟨onlyPen_wrapIfNeeded _ r, ?_⟩
    rw [wrapIfNeeded]
    split
    · exact .newline r
    · exact .refl r
  exact hwrap.trans (prints_emitGlyph _ (fromRun_brokenOps hk))

/-- The break in front of a word, or its spaces: no glyph. -/
theorem adds_breakOrLead (r : PageRenderer) (w : Word) :
    Adds (fun op => glyphIn op = none) r (r.breakOrLead o t invert w) := by
  rw [breakOrLead]
  split_ifs
  · exact .newline r
  · exact .refl r
  · refine Adds.paint (r := r) fun op hop => ?_
    rcases List.mem_append.mp hop with hop | hop
    · split at hop
      · exact glyphIn_of_mem_bgOps hop
      · cases hop
    · exact glyphIn_of_mem_underlineOps hop

/-- The break in front of a word. -/
theorem prints_breakOrLead (r : PageRenderer) (w : Word) :
    Prints o t r (r.breakOrLead o t invert w) :=
  ⟨onlyPen_breakOrLead t invert r w, (adds_breakOrLead r w).mono fun _ => fromRun_of_none⟩

/-- **A word.** -/
theorem prints_emitWord (r : PageRenderer) {w : Word} (hw : w ∈ t.words) :
    Prints o t r (r.emitWord o t invert w) := by
  have hsteps : ∀ k ∈ t.steps w.i w.w, k ∈ t.steps 0 t.len := fun k hk =>
    t.flatMap_words ▸ List.mem_flatMap.mpr ⟨w, hw, hk⟩
  rw [emitWord]
  split
  · exact Runs.run_rel_of_mem (Prints o t) .refl .trans
      (fun r k hk => prints_emitBrokenCell r (hsteps k hk)) r
  · refine (prints_breakOrLead r w).trans (Runs.run_rel_of_mem (Prints o t) .refl .trans
      (fun r k hk => prints_emitGlyph r (fromRun_cellOps (hsteps k ?_))) _)
    obtain ⟨hat, -⟩ := t.eq_wordAt_of_mem_words hw
    rw [hat] at hk ⊢
    show k ∈ t.steps w.i (t.wordAt w.i).w
    rw [t.steps_word]
    exact List.mem_append_right _ hk

/-- **A run of prose** prints its glyphs. -/
theorem prints_emitRun (hlit : r.literal = false) : Prints o t r (r.emitRun o t invert) := by
  rw [emitRun, if_neg (by simp [hlit])]
  exact Prints.trans (s := r.guardIndent) ⟨⟨rfl, rfl, rfl, rfl⟩, .refl r⟩
    (Runs.run_rel_of_mem (Prints o t) .refl .trans (fun r w hw => prints_emitWord r hw) _)

/-! ## Runs of spaces -/

/-- A run of spaces and tabs. -/
def Blank (t : Span) : Prop := ∀ k < t.len, isSpace (t.byte k) = true

instance (t : Span) : Decidable (Blank t) := inferInstanceAs (Decidable (∀ k < _, _))

/-- The words of a run of spaces have no glyphs. -/
theorem Blank.steps_eq (ht : Blank t) {w : Word} (hw : w ∈ t.words) :
    t.steps w.sp w.w = [] := by
  obtain ⟨hat, hi⟩ := t.eq_wordAt_of_mem_words hw
  rw [hat]
  refine positions_of_le (Nat.not_lt.mp fun hlt => ?_)
  -- a glyph would be in the run
  have hmem : (t.wordAt w.i).sp ∈ t.steps (t.wordAt w.i).sp (t.wordAt w.i).w := by
    rw [steps, positions_eq t.seqLenAt_pos, if_pos hlt]
    exact List.mem_cons_self
  have hno := t.not_isSpace_of_mem_steps hmem
  have hlen : (t.wordAt w.i).sp < t.len := by
    by_contra hge
    have hend : (t.wordAt w.i).w = (t.wordAt w.i).sp := by
      show t.wordEnd (t.skipSpaces w.i) = t.skipSpaces w.i
      rw [wordEnd, scan_eq t.seqLenAt_pos, if_neg fun hc => hge hc.1]
    omega
  rw [ht _ hlen] at hno
  cases hno

/-- **A run of spaces draws no glyph.** -/
theorem Blank.adds (ht : Blank t) (hlit : r.literal = false) :
    Adds (fun op => glyphIn op = none) r (r.emitRun o t invert) := by
  rw [emitRun, if_neg (by simp [hlit])]
  refine Adds.trans (s := r.guardIndent) (.refl r)
    (Runs.run_rel_of_mem (Adds _) .refl .trans (fun r w hw => ?_) _)
  have hnone := ht.steps_eq hw
  have hshort : ¬ TooLong t r.leftEdge r.advance w := by
    rw [TooLong, wordW, cells, hnone, List.length_nil, Nat.zero_mul]
    exact Nat.not_lt.mpr (Nat.zero_le _)
  rw [emitWord, if_neg hshort, hnone, Runs.run_nil, breakOrLead]
  split_ifs
  · exact .newline r
  · exact .refl r
  · refine Adds.paint (r := r) fun op hop => ?_
    rcases List.mem_append.mp hop with hop | hop
    · split at hop
      · exact glyphIn_of_mem_bgOps hop
      · cases hop
    · exact glyphIn_of_mem_underlineOps hop

/-- A glyph has been drawn in a face. -/
def DrawsIn (face : Head) (r s : PageRenderer) : Prop :=
  ∃ m, s.log = r.log ++ m ∧ ∃ y op g, .draw y op ∈ m ∧ glyphIn op = some (face, g)

/-- What has been drawn stays. -/
theorem DrawsIn.of_isPrefix {face : Head} (h : DrawsIn face r s) (hlog : s.log <+: u.log) :
    DrawsIn face r u := by
  obtain ⟨m, hm, y, op, g, hmem, hop⟩ := h
  obtain ⟨n, hn⟩ := hlog
  refine ⟨m ++ n, ?_, y, op, g, List.mem_append_left n hmem, hop⟩
  rw [← hn, hm, List.append_assoc]

/-- Something may come first. -/
theorem DrawsIn.of_log {face : Head} (h : DrawsIn face s u) (hlog : r.log <+: s.log) :
    DrawsIn face r u := by
  obtain ⟨m, hm⟩ := hlog
  obtain ⟨n, hn, y, op, g, hmem, hop⟩ := h
  refine ⟨m ++ n, ?_, y, op, g, List.mem_append_right m hmem, hop⟩
  rw [hn, ← hm, List.append_assoc]

/-- A codepoint of the row's face. -/
theorem drawsIn_emitGlyph {d : List UInt8 → Drawing} (hclip : r.clip = false) {k : Nat}
    (hd : ∃ op ∈ d (t.glyph k) r.toLayout r.screenY, ∃ g, glyphIn op = some (r.head, g)) :
    DrawsIn r.head r (r.emitGlyph o t d k) := by
  obtain ⟨op, hmem, g, hop⟩ := hd
  have hv : r.rowVisible = true := by
    rw [rowVisible, hclip]
    rfl
  refine ⟨(d (t.glyph k) r.toLayout r.screenY).map (.draw r.y), ?_, r.y, op, g,
    List.mem_map_of_mem hmem, hop⟩
  show ((r.noteUnless _ _).paint (d (t.glyph k))).log = _
  rw [PageRenderer.paint, if_pos (show (r.noteUnless _ _).rowVisible = true from hv)]
  rfl

/-- The first word of a run that is not blank has a glyph. -/
theorem lt_wordAt_of_not_blank (ht : ¬ Blank t) :
    0 < t.len ∧ (t.wordAt 0).sp < (t.wordAt 0).w := by
  by_contra hno
  refine ht fun k hk => ?_
  have hend := t.len_le_of_no_word (i := 0) fun hlt => hno ⟨by omega, hlt⟩
  have hsp : (t.wordAt 0).w ≤ (t.wordAt 0).sp := Nat.not_lt.mp fun hlt => hno ⟨by omega, hlt⟩
  exact of_lt_scan_one (Nat.zero_le k) (show k < t.skipSpaces 0 by
    show k < (t.wordAt 0).sp
    omega)

/-- **A word draws a glyph** in the face of its row. -/
theorem drawsIn_emitWord {q : PageRenderer} (hclip : q.clip = false) (hpos : 0 < t.len)
    (hlt : (t.wordAt 0).sp < (t.wordAt 0).w) :
    DrawsIn q.head q (q.emitWord o t invert (t.wordAt 0)) := by
  rw [emitWord]
  split
  · -- too long for a line: its first cell is drawn, blank or not
    obtain ⟨k, ks, hks⟩ : ∃ k ks, t.steps 0 (t.wordAt 0).w = k :: ks := by
      rw [steps, positions_eq t.seqLenAt_pos, if_pos (t.lt_wordAt_w hpos)]
      exact ⟨_, _, rfl⟩
    show DrawsIn q.head q (Runs.run _ q (t.steps 0 (t.wordAt 0).w))
    rw [hks, Runs.run_cons]
    have hpen : OnlyPen q (q.wrapIfNeeded o q.advance) := onlyPen_wrapIfNeeded q.advance q
    have hcell := drawsIn_emitGlyph (o := o) (t := t) (d := brokenOps o invert) (k := k)
      (hpen.clip_eq.trans hclip) ⟨_, List.mem_singleton.mpr rfl, _, glyphIn_glyphOp _⟩
    rw [hpen.head_eq] at hcell
    exact (hcell.of_log (frame_descends.wrapIfNeeded q.advance q).log_isPrefix).of_isPrefix
      (isPrefix_emitBroken t invert ks _)
  · -- an ordinary word: the spaces in front of it draw no glyph, its first cell does
    obtain ⟨k, ks, hks⟩ : ∃ k ks, t.steps (t.wordAt 0).sp (t.wordAt 0).w = k :: ks := by
      rw [steps, positions_eq t.seqLenAt_pos, if_pos hlt]
      exact ⟨_, _, rfl⟩
    have hblank : isBlank (t.glyph k) = false :=
      isBlank_glyph t (t.not_isSpace_of_mem_steps (hks ▸ List.mem_cons_self))
    have hpen : OnlyPen q (q.breakOrLead o t invert (t.wordAt 0)) :=
      onlyPen_breakOrLead t invert q (t.wordAt 0)
    have hcell := drawsIn_emitGlyph (o := o) (t := t) (d := cellOps o invert) (k := k)
      (hpen.clip_eq.trans hclip) ⟨_, by
        rw [cellOps_of_glyph o invert hblank]
        exact List.mem_append_right _ List.mem_cons_self, _, glyphIn_glyphOp _⟩
    rw [hpen.head_eq] at hcell
    rw [hks, Runs.run_cons]
    have hlead : Prints o t q (q.breakOrLead o t invert (t.wordAt 0)) := prints_breakOrLead q _
    obtain ⟨m, hm, -⟩ := hlead.adds
    exact (hcell.of_log ⟨m, hm.symm⟩).of_isPrefix (isPrefix_emitCells t invert ks _)

/-- **A run that is not blank draws a glyph** in the face of the row. -/
theorem drawsIn_emitRun (hlit : r.literal = false) (hclip : r.clip = false) (ht : ¬ Blank t) :
    DrawsIn r.head r (r.emitRun o t invert) := by
  obtain ⟨hpos, hlt⟩ := lt_wordAt_of_not_blank ht
  obtain ⟨ws, hws⟩ : ∃ ws, t.words = t.wordAt 0 :: ws := by
    obtain ⟨n, hn⟩ : ∃ n, t.len = n + 1 := ⟨t.len - 1, by omega⟩
    rw [words, hn, wordsUpTo, if_pos hpos]
    exact ⟨_, rfl⟩
  -- what the first word draws stays in the log, so the words after it do not matter
  rw [emitRun, if_neg (by simp [hlit]), hws, Runs.run_cons]
  refine DrawsIn.of_isPrefix ?_ (isPrefix_emitWords t invert ws _)
  exact drawsIn_emitWord (q := r.guardIndent) hclip hpos hlt

/-! ## One run of a heading -/

variable {st : Style}

/-- What `onText` does before it emits: the face is chosen, and nothing is drawn. -/
theorem openText_spec (o : Options) (t : Span) (st : Style) (r : PageRenderer) :
    (r.openText o t st).head
        = (if Climbs o t st r.toLayout then wantedHead st.depth else r.head) ∧
      (r.openText o t st).literal = st.literal ∧ (r.openText o t st).clip = r.clip ∧
      (r.openText o t st).rowOpen = r.rowOpen ∧ (r.openText o t st).log = r.log :=
  ⟨rfl, rfl, rfl, rfl, rfl⟩

/-- **A run of a heading**: its glyphs are printed in the face that is chosen for it. -/
theorem onText_spec (hlit : st.literal = false) (r : PageRenderer) :
    Adds (FromRun o t (if Climbs o t st r.toLayout then wantedHead st.depth else r.head)) r
        (r.onText o t st) ∧
      (r.onText o t st).head
        = (if Climbs o t st r.toLayout then wantedHead st.depth else r.head) ∧
      (r.onText o t st).clip = r.clip := by
  obtain ⟨hhead, hl, hclip, -, hlog⟩ := openText_spec o t st r
  have hrun : Prints o t (r.openText o t st) (r.onText o t st) := prints_emitRun (hl.trans hlit)
  rw [← hhead]
  refine ⟨?_, hrun.pen.head_eq, hrun.pen.clip_eq.trans hclip⟩
  obtain ⟨m, hm, hp⟩ := hrun.adds
  exact ⟨m, by rw [← hlog]; exact hm, hp⟩

/-- A blank run of a heading draws no glyph. -/
theorem onText_blank (hlit : st.literal = false) (ht : Blank t) (r : PageRenderer) :
    Adds (fun op => glyphIn op = none) r (r.onText o t st) := by
  obtain ⟨-, hl, -, -, hlog⟩ := openText_spec o t st r
  have hrun : Adds (fun op => glyphIn op = none) (r.openText o t st) (r.onText o t st) :=
    ht.adds (hl.trans hlit)
  obtain ⟨m, hm, hp⟩ := hrun
  exact ⟨m, by rw [← hlog]; exact hm, hp⟩

/-- A run of a heading that is not blank draws a glyph. -/
theorem onText_drawsIn (hlit : st.literal = false) (hclip : r.clip = false) (ht : ¬ Blank t) :
    DrawsIn (if Climbs o t st r.toLayout then wantedHead st.depth else r.head) r
      (r.onText o t st) := by
  obtain ⟨hhead, hl, hclip', -, hlog⟩ := openText_spec o t st r
  have hrun : DrawsIn (r.openText o t st).head (r.openText o t st) (r.onText o t st) :=
    drawsIn_emitRun (hl.trans hlit) (hclip'.trans hclip) ht
  rw [← hhead]
  obtain ⟨m, hm, hdraw⟩ := hrun
  exact ⟨m, by rw [← hlog]; exact hm, hdraw⟩

/-- An empty run does nothing to the row. -/
theorem onText_empty (hlit : st.literal = false) (ht : t.len = 0) (r : PageRenderer) :
    (r.onText o t st).rowOpen = r.rowOpen := by
  obtain ⟨-, hl, -, hopen, -⟩ := openText_spec o t st r
  have hwords : t.words = [] := by rw [words, ht, wordsUpTo]
  rw [onText, emitHere, emitRun, if_neg (by simp [hl, hlit]), hwords, Runs.run_nil]
  exact hopen

/-! ## A line -/

/-- **The runs of a line**: a heading of one depth, in prose, in well-formed UTF-8. -/
structure HeadingLine (depth : UInt8) (line : List (Span × Style)) : Prop where
  /-- The runs. -/
  styles : ∀ p ∈ line, p.2.heading = true ∧ p.2.literal = false ∧ p.2.depth = depth
  /-- The text. -/
  wellFormed : ∀ p ∈ line, WellFormed p.1

/-- One callback for each run. -/
def textLine (o : Options) (r : PageRenderer) (line : List (Span × Style)) : PageRenderer :=
  Runs.run (fun r p => r.onText o p.1 p.2) r line

/-- Every codepoint of every run is carried. -/
def AllCarried (o : Options) (want : Head) (line : List (Span × Style)) : Prop :=
  ∀ p ∈ line, Carried o want p.1

instance (o : Options) (want : Head) (line : List (Span × Style)) :
    Decidable (AllCarried o want line) := inferInstanceAs (Decidable (∀ p ∈ _, _))

/-- The glyphs of a log are all drawn in one face. -/
def InFace (face : Head) (log : List Entry) : Prop :=
  ∀ y op, .draw y op ∈ log → ∀ f g, glyphIn op = some (f, g) → f = face

/-- **Whole line or nothing**: every glyph in the heading's face, which carries them all, or every
glyph in the body face; and nothing that the body face carries is a hole. -/
structure WholeLine (o : Options) (want : Head) (line : List (Span × Style))
    (log : List Entry) : Prop where
  /-- One face. -/
  whole : (AllCarried o want line ∧ InFace want log) ∨
    (¬ AllCarried o want line ∧ InFace .none log)
  /-- No holes. -/
  noHole : ∀ y op, .draw y op ∈ log → ∀ f g, glyphIn op = some (f, g) →
    (glyphFor o.fonts (codepointOf g)).isSome = true → tableHas o op = true

/-- **No run climbs the ladder alone**: one that does begins a stretch of blanks. -/
def StaysDown (o : Options) : PageRenderer → List (Span × Style) → Prop
  | _, [] => True
  | r, p :: ps =>
      if Climbs o p.1 p.2 r.toLayout then ∀ q ∈ p :: ps, Blank q.1
      else StaysDown o (r.onText o p.1 p.2) ps

instance instDecidableStaysDown (o : Options) : ∀ (r : PageRenderer) (line : List (Span × Style)),
    Decidable (StaysDown o r line)
  | _, [] => isTrue trivial
  | r, p :: ps =>
      haveI := instDecidableStaysDown o (r.onText o p.1 p.2) ps
      inferInstanceAs (Decidable (ite _ _ _))

variable {depth : UInt8} {line : List (Span × Style)}

/-- A heading's face is not the body's. -/
theorem wantedHead_ne (depth : UInt8) : wantedHead depth ≠ .none := by
  rw [wantedHead]
  split_ifs <;> decide

/-- When a run climbs. -/
theorem climbs_iff (ho : BasicFaces o) (hbig : o.head2x = true) (ht : WellFormed t)
    (hst : st.heading = true) (l : Layout) :
    Climbs o t st l ↔ l.rowOpen = false ∧ 0 < t.len ∧ Carried o (wantedHead st.depth) t := by
  rw [Climbs, all_headHas_iff ho ht]
  simp [hbig, hst]

/-- **A line that the face carries** is drawn in it. -/
theorem textLine_carried (ho : BasicFaces o) (hbig : o.head2x = true)
    (hline : HeadingLine depth line) (hall : AllCarried o (wantedHead depth) line)
    (r : PageRenderer) (hr : r.head = wantedHead depth ∨ (r.rowOpen = false ∧ r.head = .none)) :
    Adds (fun op => ∀ f g, glyphIn op = some (f, g) → f = wantedHead depth ∧
      ((glyphFor o.fonts (codepointOf g)).isSome = true → tableHas o op = true)) r
      (textLine o r line) := by
  induction line generalizing r with
  | nil => exact .refl r
  | cons p ps ih =>
    obtain ⟨hheading, hlit, hdepth⟩ := hline.styles p List.mem_cons_self
    have hcarried := hall p List.mem_cons_self
    obtain ⟨hadds, hhead, -⟩ := onText_spec (o := o) (t := p.1) hlit r
    have hclimbs := climbs_iff ho hbig (hline.wellFormed p List.mem_cons_self) hheading r.toLayout
    rw [hdepth] at hadds hhead hclimbs
    have hrest := ih ⟨fun q hq => hline.styles q (List.mem_cons_of_mem p hq),
      fun q hq => hline.wellFormed q (List.mem_cons_of_mem p hq)⟩
      (fun q hq => hall q (List.mem_cons_of_mem p hq)) (r.onText o p.1 p.2)
    show Adds _ r (textLine o (r.onText o p.1 p.2) ps)
    by_cases hempty : p.1.len = 0
    · -- an empty run draws nothing and leaves the row as it is
      have hno : ¬ Climbs o p.1 p.2 r.toLayout := fun hc => by
        have hpos := (hclimbs.mp hc).2.1
        omega
      rw [if_neg hno] at hhead
      have hblank : Blank p.1 := fun k hk => absurd hk (by omega)
      refine Adds.trans ?_ (hrest ?_)
      · obtain ⟨m, hm, hp⟩ := onText_blank (o := o) hlit hblank r
        refine ⟨m, hm, fun y op hmem f g hop => ?_⟩
        rw [hp y op hmem] at hop
        cases hop
      · rw [hhead, onText_empty hlit hempty]
        exact hr
    · -- a run that finds the row closed climbs, for the face carries it
      have hface : (if Climbs o p.1 p.2 r.toLayout then wantedHead depth else r.head)
          = wantedHead depth := by
        rcases hr with hr | ⟨hclosed, -⟩
        · rw [hr, ite_self]
        · exact if_pos (hclimbs.mpr ⟨hclosed, by omega, hcarried⟩)
      rw [hface] at hadds hhead
      refine Adds.trans ?_ (hrest (.inl hhead))
      obtain ⟨m, hm, hp⟩ := hadds
      refine ⟨m, hm, fun y op hmem f g hop => ?_⟩
      obtain ⟨hf, ⟨k, hk, hg⟩, hhole⟩ := hp y op hmem f g hop
      exact ⟨hf, hhole (.inr (hg ▸ hcarried k hk))⟩

/-- Blank runs draw no glyph. -/
theorem textLine_blank (hlit : ∀ p ∈ line, p.2.literal = false) (hblank : ∀ p ∈ line, Blank p.1)
    (r : PageRenderer) : Adds (fun op => glyphIn op = none) r (textLine o r line) :=
  Runs.run_rel_of_mem (Adds _) .refl .trans
    (fun r p hp => onText_blank (hlit p hp) (hblank p hp) r) r

/-- **A line on which no run climbs** is drawn in the body face. -/
theorem textLine_body (hlit : ∀ p ∈ line, p.2.literal = false) (r : PageRenderer)
    (hr : r.head = .none) (hdown : StaysDown o r line) :
    Adds (fun op => ∀ f g, glyphIn op = some (f, g) → f = .none ∧
      ((glyphFor o.fonts (codepointOf g)).isSome = true → tableHas o op = true)) r
      (textLine o r line) := by
  induction line generalizing r with
  | nil => exact .refl r
  | cons p ps ih =>
    rw [StaysDown] at hdown
    split at hdown
    · obtain ⟨m, hm, hp⟩ := textLine_blank (o := o) hlit hdown r
      refine ⟨m, hm, fun y op hmem f g hop => ?_⟩
      rw [hp y op hmem] at hop
      cases hop
    next hno =>
      obtain ⟨hadds, hhead, -⟩ := onText_spec (o := o) (t := p.1) (hlit p List.mem_cons_self) r
      rw [if_neg hno, hr] at hadds hhead
      refine Adds.trans ?_ (ih (fun q hq => hlit q (List.mem_cons_of_mem p hq)) _ hhead hdown)
      obtain ⟨m, hm, hp⟩ := hadds
      refine ⟨m, hm, fun y op hmem f g hop => ?_⟩
      obtain ⟨hf, -, hhole⟩ := hp y op hmem f g hop
      exact ⟨hf, hhole (.inl rfl)⟩

/-- The log grows over a line. -/
theorem isPrefix_textLine (r : PageRenderer) (line : List (Span × Style)) :
    r.log <+: (textLine o r line).log := by
  have hline : Descends o r (textLine o r line) := by
    rw [textLine]
    refine Runs.run_rel (Descends o) .refl .trans ?_ r line
    intro q p
    exact descends_onText p.1 p.2 q
  exact hline.log_isPrefix

/-- **A row that has climbed stays up**: the next run that is not blank is drawn in its face. -/
theorem textLine_up (hline : HeadingLine depth line) (hclip : r.clip = false)
    (hr : r.head = wantedHead depth) (hsome : ∃ p ∈ line, ¬ Blank p.1) :
    DrawsIn (wantedHead depth) r (textLine o r line) := by
  induction line generalizing r with
  | nil =>
    obtain ⟨p, hp, -⟩ := hsome
    cases hp
  | cons p ps ih =>
    obtain ⟨-, hlit, hdepth⟩ := hline.styles p List.mem_cons_self
    obtain ⟨-, hhead, hclip'⟩ := onText_spec (o := o) (t := p.1) hlit r
    rw [hdepth, hr, ite_self] at hhead
    show DrawsIn _ r (textLine o (r.onText o p.1 p.2) ps)
    -- a blank run may close the row, but it keeps the face: the glyph is in a later run
    by_cases hp : Blank p.1
    · obtain ⟨q, hq, hqb⟩ := hsome
      have hmem : q ∈ ps := by
        rcases List.mem_cons.mp hq with rfl | hmem
        · exact absurd hp hqb
        · exact hmem
      have hrest := ih ⟨fun q hq => hline.styles q (List.mem_cons_of_mem p hq),
        fun q hq => hline.wellFormed q (List.mem_cons_of_mem p hq)⟩ (hclip'.trans hclip) hhead
        ⟨q, hmem, hqb⟩
      exact hrest.of_log (descends_onText p.1 p.2 r).log_isPrefix
    · have hdraw := onText_drawsIn (o := o) hlit hclip hp
      rw [hdepth, hr, ite_self] at hdraw
      exact hdraw.of_isPrefix (isPrefix_textLine _ ps)

/-- **A run that climbs alone** leads to a glyph in the heading's face. -/
theorem textLine_climbs (hline : HeadingLine depth line) (hclip : r.clip = false)
    (hno : ¬ StaysDown o r line) : DrawsIn (wantedHead depth) r (textLine o r line) := by
  induction line generalizing r with
  | nil => exact absurd trivial hno
  | cons p ps ih =>
    obtain ⟨-, hlit, hdepth⟩ := hline.styles p List.mem_cons_self
    have hline' : HeadingLine depth ps :=
      ⟨fun q hq => hline.styles q (List.mem_cons_of_mem p hq),
        fun q hq => hline.wellFormed q (List.mem_cons_of_mem p hq)⟩
    obtain ⟨-, hhead, hclip'⟩ := onText_spec (o := o) (t := p.1) hlit r
    rw [StaysDown] at hno
    split at hno
    next hclimbs =>
      rw [if_pos hclimbs, hdepth] at hhead
      show DrawsIn _ r (textLine o (r.onText o p.1 p.2) ps)
      by_cases hp : Blank p.1
      · -- blank itself, so that another run must not be
        have hsome : ∃ q ∈ ps, ¬ Blank q.1 := by
          by_contra hall
          refine hno fun q hq => ?_
          rcases List.mem_cons.mp hq with rfl | hq
          · exact hp
          · by_contra hqb
            exact hall ⟨q, hq, hqb⟩
        exact (textLine_up hline' (hclip'.trans hclip) hhead hsome).of_log
          (descends_onText p.1 p.2 r).log_isPrefix
      · have hdraw := onText_drawsIn (o := o) hlit hclip hp
        rw [if_pos hclimbs, hdepth] at hdraw
        exact hdraw.of_isPrefix (isPrefix_textLine _ ps)
    next hstay =>
      exact (ih hline' (hclip'.trans hclip) hno).of_log
        (descends_onText p.1 p.2 r).log_isPrefix

/-- **A heading is drawn whole if and only if** the face of its depth carries the whole line, or no
run of the line climbs the ladder on its own. -/
theorem wholeLine_iff (ho : BasicFaces o) (hbig : o.head2x = true)
    (hline : HeadingLine depth line) {r : PageRenderer} (hclosed : r.rowOpen = false)
    (hbody : r.head = .none) :
    WholeLine o (wantedHead depth) line
        (textLine o { r with clip := false, log := [] } line).log ↔
      AllCarried o (wantedHead depth) line ∨
        StaysDown o { r with clip := false, log := [] } line := by
  generalize hq : ({ r with clip := false, log := [] } : PageRenderer) = q
  have hopen : q.rowOpen = false := by rw [← hq]; exact hclosed
  have hhead : q.head = .none := by rw [← hq]; exact hbody
  have hclip : q.clip = false := by rw [← hq]
  have hlog : q.log = [] := by rw [← hq]
  constructor
  · -- a run that has climbed alone draws in the heading's face: the line is not whole
    intro h
    by_contra hno
    rw [not_or] at hno
    obtain ⟨m, hm, y, op, g, hmem, hop⟩ := textLine_climbs hline hclip hno.2
    rw [hlog, List.nil_append] at hm
    rcases h.whole with ⟨hall, -⟩ | ⟨-, hface⟩
    · exact hno.1 hall
    · exact wantedHead_ne depth (hface y op (hm ▸ hmem) _ g hop)
  · intro h
    by_cases hall : AllCarried o (wantedHead depth) line
    · obtain ⟨m, hm, hp⟩ := textLine_carried ho hbig hline hall q (.inr ⟨hopen, hhead⟩)
      rw [hlog, List.nil_append] at hm
      rw [hm]
      exact ⟨.inl ⟨hall, fun y op hmem f g hop => (hp y op hmem f g hop).1⟩,
        fun y op hmem f g hop => (hp y op hmem f g hop).2⟩
    · obtain ⟨m, hm, hp⟩ := textLine_body (o := o) (fun p hp => (hline.styles p hp).2.1) q hhead
        (h.resolve_left hall)
      rw [hlog, List.nil_append] at hm
      rw [hm]
      exact ⟨.inr ⟨hall, fun y op hmem f g hop => (hp y op hmem f g hop).1⟩,
        fun y op hmem f g hop => (hp y op hmem f g hop).2⟩

/-! ## Two runs -/

/-- A heading face with ASCII in it, and a body face with an arrow as well. -/
def arrowFonts : Fonts :=
  { Display.blankFonts with
    extra := fun cp => if cp = 0x2192 then some fun _ => 0 else none
    big := fun cp => if 32 ≤ cp ∧ cp ≤ 126 then some fun _ => 0 else none }

/-- A heading at depth 1. -/
def headingStyle : Style := { depth := 1, heading := true }

/-- A letter, and an arrow as a run of its own. -/
def letterAndArrow : List (Span × Style) :=
  [(.ofList [0x41], headingStyle), (.ofList [0xE2, 0x86, 0x92], headingStyle)]

/-- An arrow, and a letter as a run of its own: the arrow keeps the line in the body face. -/
theorem arrow_first_whole :
    WholeLine { fonts := arrowFonts } .h1 letterAndArrow.reverse
      (textLine { fonts := arrowFonts }
        { (fresh fun _ => 0).begin 0 with clip := false, log := [] }
        letterAndArrow.reverse).log := by
  have hfaces : BasicFaces { fonts := arrowFonts } := by
    intro want cp hcp
    have hbig : ¬ (32 ≤ cp ∧ cp ≤ 126) := fun hc =>
      absurd (UInt32.le_trans hcp hc.2) (by decide)
    cases want <;> simp [headHas, arrowFonts, Display.blankFonts, hbig]
  have hline : HeadingLine 1 letterAndArrow.reverse := by
    refine ⟨by decide, fun p hp => ?_⟩
    have hcases : p = (.ofList [0xE2, 0x86, 0x92], headingStyle) ∨
        p = (.ofList [0x41], headingStyle) := by
      simpa [letterAndArrow] using hp
    rcases hcases with rfl | rfl <;> constructor <;> decide
  exact (wholeLine_iff hfaces rfl hline rfl rfl).mpr (.inr (by decide))

/-- **A letter climbs alone**: the arrow behind it is drawn as a hole in the heading's face. -/
theorem arrow_behind_letter : ¬ WholeLine { fonts := arrowFonts } .h1 letterAndArrow
    (textLine { fonts := arrowFonts }
      { (fresh fun _ => 0).begin 0 with clip := false, log := [] } letterAndArrow).log := by
  intro h
  rcases h.whole with ⟨hall, -⟩ | ⟨-, hface⟩
  · revert hall
    decide
  · have hbig := hface 0 (.drawTextBig 14 0 [0x41] true) (by decide) .h1 [0x41] rfl
    cases hbig

end Thicket.Page
