import Thicket.Base.While
import Thicket.Page.Placed

/-! # Wrapping keeps the prose

Whatever the pen and the width of a line, the cells of a run are its codepoints in order, each of
them whole; only spaces are dropped. A word that is no wider than a line is on one row. The loops
end. -/

namespace Thicket.Page

open Thicket.Lcd Thicket.Page.Span PageRenderer

/-! ## The bytes of a run -/

namespace Span

variable (t : Span)

/-- The bytes of a run. -/
def bytes : List UInt8 := (List.range t.len).map t.byte

variable {t}

/-- **The sequences of a run tile it** when none is cut short. -/
theorem flatMap_glyph {a : Nat} (h : ∀ k ∈ t.steps a t.len, k + t.seqLenAt k ≤ t.len) :
    (t.steps a t.len).flatMap t.glyph = (List.range' a (t.len - a)).map t.byte := by
  -- on what is left of the run: a sequence may take several bytes off it
  induction hm : t.len - a using Nat.strongRecOn generalizing a with
  | _ m ih =>
    subst hm
    have hsteps : t.steps a t.len
        = if a < t.len then a :: t.steps (a + t.seqLenAt a) t.len else [] :=
      positions_eq t.seqLenAt_pos a
    by_cases ha : a < t.len
    · rw [if_pos ha] at hsteps
      have hpos := t.seqLenAt_pos a
      have hle : a + t.seqLenAt a ≤ t.len := h a (hsteps ▸ List.mem_cons_self)
      have hrest := ih (t.len - (a + t.seqLenAt a)) (by omega) (a := a + t.seqLenAt a)
        (fun k hk => h k (hsteps ▸ List.mem_cons_of_mem a hk)) rfl
      have hglyph : t.glyph a = (List.range' a (t.seqLenAt a)).map t.byte := by
        rw [List.range'_eq_map_range, List.map_map]
        rfl
      have hsum : t.seqLenAt a + (t.len - (a + t.seqLenAt a)) = t.len - a := by omega
      rw [hsteps, List.flatMap_cons, hrest, hglyph, ← List.map_append, List.range'_append_1, hsum]
    · rw [hsteps, if_neg ha, Nat.sub_eq_zero_of_le (Nat.not_lt.mp ha)]
      rfl

/-- The words of a run follow one another. -/
theorem pairwise_wordsUpTo (fuel i : Nat) :
    (t.wordsUpTo fuel i).Pairwise (fun a b => a.w ≤ b.i) ∧ ∀ w ∈ t.wordsUpTo fuel i, i ≤ w.i := by
  induction fuel generalizing i with
  | zero => exact ⟨List.Pairwise.nil, fun w hw => absurd hw List.not_mem_nil⟩
  | succ fuel ih =>
    rw [wordsUpTo]
    split
    next hi =>
      obtain ⟨hpair, hge⟩ := ih (t.wordAt i).w
      refine ⟨List.pairwise_cons.mpr ⟨hge, hpair⟩, fun w hw => ?_⟩
      obtain rfl | hmem := List.mem_cons.mp hw
      · exact Nat.le_refl _
      · exact Nat.le_trans (Nat.le_of_lt (t.lt_wordAt_w hi)) (hge w hmem)
    next => exact ⟨List.Pairwise.nil, fun w hw => absurd hw List.not_mem_nil⟩

/-- **The loop over the words ends**: its body has run over all of them. -/
theorem exits_words {σ : Type} (step : σ → Word → σ) {fuel i : Nat} (h : t.len - i ≤ fuel) (s : σ) :
    ∃ e, Exits (fun q : Nat × σ => q.1 < t.len)
      (fun q => ((t.wordAt q.1).w, step q.2 (t.wordAt q.1))) (i, s)
      (e, Runs.run step s (t.wordsUpTo fuel i)) := by
  induction fuel generalizing i s with
  | zero => exact ⟨i, .stop (Nat.not_lt.mpr (by omega))⟩
  | succ fuel ih =>
    rw [wordsUpTo]
    by_cases hi : i < t.len
    · have hlt := t.lt_wordAt_w hi
      obtain ⟨e, he⟩ := ih (i := (t.wordAt i).w) (by omega) (step s (t.wordAt i))
      rw [if_pos hi]
      exact ⟨e, .turn hi he⟩
    · rw [if_neg hi]
      exact ⟨i, .stop hi⟩

end Span

/-! ## Whole codepoints -/

variable {o : Options} {t : Span} {invert : Bool} {r : PageRenderer}

/-- The sequences of a well-formed run end in it. -/
theorem WellFormed.step_le (ht : WellFormed t) {k : Nat} (hk : k ∈ t.steps 0 t.len) :
    k + t.seqLenAt k ≤ t.len := by
  have hpos := t.seqLenAt_pos k
  by_cases hone : t.seqLenAt k = 1
  · rw [hone]
    exact (mem_positions hk).2
  · have hlast := (ht.continued k hk (t.seqLenAt k - 1) (by omega) (by omega)).1
    omega

/-- **A cell of a well-formed run is one codepoint**: decoding it leaves nothing. -/
theorem WellFormed.nextCp_glyph (ht : WellFormed t) {k : Nat} (hk : k ∈ t.steps 0 t.len) :
    (nextCp (t.glyph k)).2 = [] := by
  obtain ⟨g1, g2, g3, g4⟩ := glyph_eq t k
  have htail : ∀ b < t.seqLenAt k, 0 < b → IsTail (t.byte (k + b)) :=
    fun b hb hpos => (ht.continued k hk b hb hpos).2
  rcases seqLen_cases (t.byte k) with h | h | h | h
  · rw [g1 h, nextCp_one h]
  · have h' : t.seqLenAt k = 2 := h
    rw [g2 h, nextCp_two h, if_pos (htail 1 (by omega) (by decide))]
  · have h' : t.seqLenAt k = 3 := h
    rw [g3 h, nextCp_three h, if_pos (htail 1 (by omega) (by decide)),
      if_pos (htail 2 (by omega) (by decide))]
  · have h' : t.seqLenAt k = 4 := h
    rw [g4 h, nextCp_four h, if_pos (htail 1 (by omega) (by decide)),
      if_pos (htail 2 (by omega) (by decide)), if_pos (htail 3 (by omega) (by decide))]

/-! ## What is kept -/

/-- Bytes without spaces and tabs. -/
def inked (bytes : List UInt8) : List UInt8 := bytes.filter fun b => !isSpace b

/-- Bytes that are kept of one list after another. -/
theorem inked_append (bs cs : List UInt8) : inked (bs ++ cs) = inked bs ++ inked cs :=
  List.filter_append ..

/-- The cells that a word has in the trace. -/
def laidSteps (t : Span) (edge adv : Nat) (w : Word) : List Nat :=
  if TooLong t edge adv w then t.steps w.i w.w else t.steps w.sp w.w

/-- Nothing is kept of spaces. -/
theorem inked_spaces (i : Nat) : inked ((t.steps i (t.wordAt i).sp).flatMap t.glyph) = [] := by
  refine List.filter_eq_nil_iff.mpr fun b hb => ?_
  obtain ⟨k, hk, hb⟩ := List.mem_flatMap.mp hb
  have hspace := t.isSpace_of_mem_steps hk
  rw [(glyph_eq t k).1 (seqLen_of_isSpace hspace)] at hb
  simp [List.mem_singleton.mp hb, hspace]

/-- **A word keeps its bytes**, broken or not. -/
theorem inked_laidSteps (edge adv i : Nat) :
    inked ((laidSteps t edge adv (t.wordAt i)).flatMap t.glyph)
      = inked ((t.steps i (t.wordAt i).w).flatMap t.glyph) := by
  rw [laidSteps]
  split
  · rfl
  · rw [t.steps_word, List.flatMap_append, inked_append, inked_spaces, List.nil_append]

/-- The indices of the trace of some words. -/
theorem map_k_placedWords (ws : List Word) (r : PageRenderer) :
    (Runs.outputs (emitWord o t invert) (placeWord o t invert) r ws).map PlacedCell.k
      = ws.flatMap (laidSteps t r.leftEdge r.advance) := by
  induction ws generalizing r with
  | nil => rfl
  | cons w ws ih =>
    have hpen : OnlyPen r (r.emitWord o t invert w) := onlyPen_emitWord t invert r w
    rw [Runs.outputs_cons, List.map_append, ih, map_k_placeWord, hpen.leftEdge_eq,
      hpen.advance_eq]
    rfl

/-- The cells of a word in the trace are codepoints of the run. -/
theorem mem_steps_of_mem_laidSteps {edge adv k : Nat} {w : Word} (hw : w ∈ t.words)
    (hk : k ∈ laidSteps t edge adv w) : k ∈ t.steps w.i w.w := by
  rw [laidSteps] at hk
  split at hk
  · exact hk
  · rw [(t.eq_wordAt_of_mem_words hw).1] at hk ⊢
    show k ∈ t.steps w.i (t.wordAt w.i).w
    rw [t.steps_word]
    exact List.mem_append_right _ hk

/-- The bytes of the words, one after the other. -/
theorem inked_words {ws : List Word} (hws : ∀ w ∈ ws, w = t.wordAt w.i) (edge adv : Nat) :
    inked ((ws.flatMap (laidSteps t edge adv)).flatMap t.glyph)
      = inked ((ws.flatMap fun w => t.steps w.i w.w).flatMap t.glyph) := by
  induction ws with
  | nil => rfl
  | cons w ws ih =>
    have hword := inked_laidSteps (t := t) edge adv w.i
    rw [← hws w List.mem_cons_self] at hword
    rw [List.flatMap_cons, List.flatMap_cons, List.flatMap_append, List.flatMap_append,
      inked_append, inked_append, hword, ih fun v hv => hws v (List.mem_cons_of_mem w hv)]

/-- **The trace keeps the bytes of the run**, spaces apart. -/
theorem inked_placedCells (ht : WellFormed t) :
    inked ((r.placedCells o t invert).flatMap fun c => t.glyph c.k) = inked t.bytes := by
  have hk : (Runs.outputs (emitWord o t invert) (placeWord o t invert) r.guardIndent
      t.words).map PlacedCell.k = t.words.flatMap (laidSteps t r.leftEdge r.advance) :=
    map_k_placedWords t.words r.guardIndent
  have htile := flatMap_glyph (a := 0) fun k hk => ht.step_le hk
  rw [← List.flatMap_map PlacedCell.k t.glyph, placedCells, hk,
    inked_words fun w hw => (t.eq_wordAt_of_mem_words hw).1, t.flatMap_words, htile, Nat.sub_zero,
    ← List.range_eq_range']
  rfl

/-! ## Rows -/

/-- A cell of the trace of some words is of one of them. -/
theorem exists_word_of_mem {ws : List Word} (hws : ∀ w ∈ ws, w ∈ t.words) {r : PageRenderer}
    {c : PlacedCell}
    (hc : c ∈ Runs.outputs (emitWord o t invert) (placeWord o t invert) r ws) :
    ∃ w ∈ ws, w.i ≤ c.k ∧ c.k < w.w := by
  have hk := List.mem_map_of_mem (f := PlacedCell.k) hc
  rw [map_k_placedWords] at hk
  obtain ⟨w, hw, hk⟩ := List.mem_flatMap.mp hk
  exact ⟨w, hw, mem_positions (mem_steps_of_mem_laidSteps (hws w hw) hk)⟩

/-- A word no wider than a line. -/
def FitsLine (t : Span) (edge adv : Nat) (w : Word) : Prop :=
  t.cells w.sp w.w * adv ≤ contentW - (edge - marginX)

/-- It is not broken: its width in 16 bits is no more than its width. -/
theorem FitsLine.not_tooLong {edge adv : Nat} {w : Word} (h : FitsLine t edge adv w) :
    ¬ TooLong t edge adv w := by
  have hle : (wordW t adv w).toNat ≤ t.cells w.sp w.w * adv := by
    rw [wordW, UInt16.toNat_ofNat']
    exact Nat.mod_le _ _
  exact Nat.not_lt.mpr (hle.trans h)

/-- **A word no wider than a line is on one row.** -/
theorem exists_row {w : Word} (hw : w ∈ t.words) (hfit : FitsLine t r.leftEdge r.advance w) :
    ∃ row, ∀ c ∈ r.placedCells o t invert, w.sp ≤ c.k → c.k < w.w → c.row = row := by
  obtain ⟨pre, post, hwords⟩ := List.append_of_mem hw
  have hpair := (pairwise_wordsUpTo (t := t) t.len 0).1
  rw [← words, hwords, List.pairwise_append, List.pairwise_cons] at hpair
  obtain ⟨-, ⟨hpost, -⟩, hpre⟩ := hpair
  have hle : w.i ≤ w.sp := by
    rw [(t.eq_wordAt_of_mem_words hw).1]
    exact (t.wordAt_le w.i).1
  have hmem : ∀ v, v ∈ pre ∨ v ∈ post → v ∈ t.words := fun v hv => by
    rw [hwords, List.mem_append, List.mem_cons]
    exact hv.imp_right .inr
  -- the word is emitted in one state: the words before it and after it have other indices
  let q := Runs.run (emitWord o t invert) r.guardIndent pre
  have hpen : OnlyPen r q :=
    OnlyPen.trans (s := r.guardIndent) ⟨rfl, rfl, rfl, rfl⟩
      (Runs.run_rel OnlyPen .refl .trans (fun r w => onlyPen_emitWord t invert r w) _ _)
  have hlong : ¬ TooLong t q.leftEdge q.advance w := by
    rw [hpen.leftEdge_eq, hpen.advance_eq]
    exact hfit.not_tooLong
  refine ⟨(q.breakOrLead o t invert w).y, fun c hc hsp hlt => ?_⟩
  rw [placedCells, hwords, Runs.outputs_append, Runs.outputs_cons, List.mem_append,
    List.mem_append] at hc
  rcases hc with hc | hc | hc
  · obtain ⟨v, hv, -, hv'⟩ := exists_word_of_mem (fun v hv => hmem v (.inl hv)) hc
    have hbefore := hpre v hv w List.mem_cons_self
    omega
  · exact row_of_mem_placeWord hlong hc
  · obtain ⟨v, hv, hv', -⟩ := exists_word_of_mem (fun v hv => hmem v (.inr hv)) hc
    have hafter := hpost v hv
    omega

/-! ## Prose -/

/-- **What wrapping keeps of a run of prose.** -/
structure ProseKept (o : Options) (t : Span) (invert : Bool) (r : PageRenderer) : Prop where
  /-- The chunks make up the bytes of the run, spaces and tabs apart. -/
  bytes_eq : inked ((r.placedCells o t invert).flatMap fun c => t.glyph c.k) = inked t.bytes
  /-- Each chunk is a sequence of the run, ends in it, and is decoded as one codepoint. -/
  whole : ∀ c ∈ r.placedCells o t invert, c.k ∈ t.steps 0 t.len ∧ c.k + t.seqLenAt c.k ≤ t.len ∧
    (nextCp (t.glyph c.k)).2 = []
  /-- A word no wider than a line is on one row. -/
  one_row : ∀ w ∈ t.words, FitsLine t r.leftEdge r.advance w →
    ∃ row, ∀ c ∈ r.placedCells o t invert, w.sp ≤ c.k → c.k < w.w → c.row = row
  /-- The chunks whose row is visible are what is drawn. -/
  drawn : glyphsOf (newOps r (r.emitRun o t invert))
    = ((r.placedCells o t invert).filter fun c => r.shows c.row).map (r.drawCell o t invert)
  /-- `while (i < n)` ends. -/
  words_end : ∃ e, Exits (fun q : Nat × PageRenderer => q.1 < t.len)
    (fun q => ((t.wordAt q.1).w, q.2.emitWord o t invert (t.wordAt q.1))) (0, r.guardIndent)
    (e, r.emitRun o t invert)
  /-- `while (sp < n && is_space(t[sp])) ++sp` ends. -/
  spaces_end : ∀ i, Exits (fun k => k < t.len ∧ isSpace (t.byte k)) (· + 1) i (t.wordAt i).sp
  /-- `while (w < n && !is_space(t[w])) w += seq_len(t[w])` ends. -/
  word_ends : ∀ i, Exits (fun k => k < t.len ∧ !isSpace (t.byte k)) (fun k => k + t.seqLenAt k)
    (t.wordAt i).sp (t.wordAt i).w
  /-- `for (k = i; k < w; k += L)` ends. -/
  broken_ends : ∀ i q, ∃ e, Exits (fun p : Nat × PageRenderer => p.1 < (t.wordAt i).w)
    (fun p => (p.1 + t.seqLenAt p.1, p.2.emitBrokenCell o t invert p.1)) (i, q)
    (e, Runs.run (emitBrokenCell o t invert) q (t.steps i (t.wordAt i).w))
  /-- `for (k = sp; k < w; k += L)` ends. -/
  cells_end : ∀ i q, ∃ e, Exits (fun p : Nat × PageRenderer => p.1 < (t.wordAt i).w)
    (fun p => (p.1 + t.seqLenAt p.1, p.2.emitCell o t invert p.1)) ((t.wordAt i).sp, q)
    (e, Runs.run (emitCell o t invert) q (t.steps (t.wordAt i).sp (t.wordAt i).w))

/-- A cell of the trace is a codepoint of the run. -/
theorem mem_steps_of_mem_placedCells {c : PlacedCell} (hc : c ∈ r.placedCells o t invert) :
    c.k ∈ t.steps 0 t.len := by
  have hk := List.mem_map_of_mem (f := PlacedCell.k) hc
  rw [placedCells, map_k_placedWords] at hk
  obtain ⟨w, hw, hk⟩ := List.mem_flatMap.mp hk
  rw [← t.flatMap_words]
  exact List.mem_flatMap.mpr ⟨w, hw, mem_steps_of_mem_laidSteps hw hk⟩

/-- **Prose is never lost, duplicated or reordered by wrapping**, from any state. -/
theorem prose_kept (o : Options) (ht : WellFormed t) (invert : Bool) (hlit : r.literal = false) :
    ProseKept o t invert r where
  bytes_eq := inked_placedCells ht
  whole c hc :=
    have hk := mem_steps_of_mem_placedCells hc
    ⟨hk, ht.step_le hk, ht.nextCp_glyph hk⟩
  one_row _ hw hfit := exists_row hw hfit
  drawn := glyphs_emitRun hlit
  words_end := by
    rw [emitRun, if_neg (by simp [hlit])]
    exact exits_words (emitWord o t invert) (by omega) r.guardIndent
  spaces_end i := exits_scan (fun _ => Nat.one_pos) i
  word_ends i := exits_scan t.seqLenAt_pos (t.skipSpaces i)
  broken_ends i q := exits_positions t.seqLenAt_pos (emitBrokenCell o t invert) i q
  cells_end i q := exits_positions t.seqLenAt_pos (emitCell o t invert) (t.wordAt i).sp q

/-- A word with two codepoints, one of them of two bytes, and a tab. -/
theorem prose_kept_sample :
    ProseKept { fonts := Display.blankFonts } (.ofList [0x61, 0xC3, 0xA9, 0x09]) true
      (fresh fun _ => 0) :=
  prose_kept _ (by constructor <;> decide) true rfl

end Thicket.Page
