import Thicket.Page.Reads

/-! # When nothing is read past a run

A sequence is copied as long as its first byte says, whether or not the run goes on that far. So a
run is read within its bounds exactly when no sequence that is copied is cut off; a row of a table
always is, and a slice of a cell when it ends with a sequence, inside the cell. -/

namespace Thicket.Page

open Thicket.Lcd Thicket.Page.Span PageRenderer

/-! ## Runs -/

/-- **The sequences that are copied end within a bound**: all of prose, those in front of the clip
of preformatted text. -/
def CopiedWithin (t : Span) (l : Layout) (m : Nat) : Prop :=
  ∀ k ∈ laidOf t l, k + t.seqLenAt k ≤ m

instance (t : Span) (l : Layout) (m : Nat) : Decidable (CopiedWithin t l m) :=
  inferInstanceAs (Decidable (∀ k ∈ _, _))

variable {o : Options} {t : Span} {l : Layout} {m : Nat}

/-- A sequence that is copied. -/
theorem forall_copied_lt {k : Nat} : (∀ i ∈ t.copied k, i < m) ↔ k + t.seqLenAt k ≤ m := by
  have hpos := t.seqLenAt_pos k
  simp only [copied, List.forall_mem_cons, List.mem_range'_1]
  constructor
  · rintro ⟨-, h⟩
    have hlast := h (k + t.seqLenAt k - 1) (by omega)
    omega
  · intro h
    exact ⟨by omega, fun i hi => by omega⟩

/-- Words begin where strides lead. -/
theorem strides_of_mem_words {w : Word} (h : w ∈ t.words) : Strides t.seqLenAt t.len 0 w.i := by
  have hupTo : ∀ fuel i, w ∈ t.wordsUpTo fuel i → Strides t.seqLenAt t.len i w.i := by
    intro fuel
    induction fuel with
    | zero => exact fun i hi => absurd hi List.not_mem_nil
    | succ fuel ih =>
      intro i hi
      rw [wordsUpTo] at hi
      split at hi
      · rcases List.mem_cons.mp hi with rfl | hi
        · exact .refl
        · exact (t.strides_wordAt i).trans (ih _ hi)
      · cases hi
  exact hupTo t.len 0 h

/-- **What is read to find a word** are codepoints of the run. -/
theorem mem_steps_of_mem_wordTested {w : Word} (hw : w ∈ t.words) {k : Nat}
    (h : k ∈ t.wordTested w.i) : k ∈ t.steps 0 t.len := by
  have hstart := strides_of_mem_words hw
  have hreached : ∀ {j}, Strides t.seqLenAt t.len w.i j ∧ j < t.len → j ∈ t.steps 0 t.len :=
    fun hj => mem_positions_of_strides t.seqLenAt_pos (hstart.trans hj.1) hj.2
  rcases List.mem_append.mp h with h | h
  · rcases List.mem_append.mp h with h | h
    · exact hreached (strides_of_mem_tested_one t.seqLenAt_pos (fun _ hk => seqLen_of_isSpace hk) h)
    · obtain ⟨hto, hlt⟩ := strides_of_mem_tested t.seqLenAt_pos h
      exact hreached ⟨(t.strides_skipSpaces w.i).trans hto, hlt⟩
  · obtain ⟨hto, hlt⟩ := strides_of_mem_positions t.seqLenAt_pos
      (strides_scan (t.skipSpaces w.i)) h
    exact hreached ⟨(t.strides_skipSpaces w.i).trans hto, hlt⟩

/-- A word has spaces in front of it, and then its cells. -/
theorem steps_of_mem_words {w : Word} (hw : w ∈ t.words) :
    t.steps w.i w.w = t.steps w.i w.sp ++ t.steps w.sp w.w ∧
      ∀ k ∈ t.steps w.i w.sp, isSpace (t.byte k) = true := by
  obtain ⟨hat, -⟩ := t.eq_wordAt_of_mem_words hw
  have hsp : w.sp = (t.wordAt w.i).sp := congrArg Word.sp hat
  have hend : w.w = (t.wordAt w.i).w := congrArg Word.w hat
  rw [hsp, hend]
  exact ⟨t.steps_word w.i, fun k hk => t.isSpace_of_mem_steps hk⟩

/-- **Prose is read within a bound iff its sequences end within it.** -/
theorem forall_wordReads_lt {edge adv : Nat} (hm : ∀ k ∈ t.steps 0 t.len, k < m) :
    (∀ i ∈ t.words.flatMap (t.wordReads edge adv), i < m)
      ↔ ∀ k ∈ t.steps 0 t.len, k + t.seqLenAt k ≤ m := by
  simp only [List.forall_mem_flatMap, wordReads, List.forall_mem_append]
  constructor
  · intro h k hk
    obtain ⟨w, hw, hkw⟩ := List.mem_flatMap.mp (t.flatMap_words ▸ hk)
    have hcopied := (h w hw).2
    split at hcopied
    · exact forall_copied_lt.mp (List.forall_mem_flatMap.mp hcopied k hkw)
    · obtain ⟨hsteps, hspaces⟩ := steps_of_mem_words hw
      rcases List.mem_append.mp (hsteps ▸ hkw) with hspace | hword
      · -- a space is one byte, and is read to find the word
        have hone := seqLen_of_isSpace (hspaces k hspace)
        rw [show t.seqLenAt k = 1 from hone]
        exact hm k hk
      · exact forall_copied_lt.mp (List.forall_mem_flatMap.mp hcopied k hword)
  · intro h w hw
    refine ⟨fun i hi => hm i (mem_steps_of_mem_wordTested hw hi), ?_⟩
    have hall : ∀ k ∈ t.steps w.i w.w, ∀ i ∈ t.copied k, i < m := fun k hk =>
      forall_copied_lt.mpr (h k (t.flatMap_words ▸ List.mem_flatMap_of_mem hw hk))
    split
    · exact List.forall_mem_flatMap.mpr hall
    · refine List.forall_mem_flatMap.mpr fun k hk => hall k ?_
      rw [(steps_of_mem_words hw).1]
      exact List.mem_append_right _ hk

/-- **So is preformatted text**, up to the clip. -/
theorem forall_literalReads_lt {ks : List Nat} (hm : ∀ k ∈ ks, k < m) (x : Nat) :
    (∀ i ∈ t.literalReads x ks, i < m) ↔ ∀ k ∈ fitting x ks, k + t.seqLenAt k ≤ m := by
  induction ks generalizing x with
  | nil => simp [literalReads, fitting]
  | cons k ks ih =>
    obtain ⟨hk, hks⟩ := List.forall_mem_cons.mp hm
    rw [literalReads, fitting, List.forall_mem_cons]
    split
    next hclip => simp [hk]
    next hin =>
      rw [List.forall_mem_append, forall_copied_lt, ih hks, List.forall_mem_cons]
      exact and_iff_right hk

/-- **A run is read within a bound** that its codepoints lie within iff the sequences that are
copied end within it. -/
theorem forall_runReads_lt (hm : ∀ k ∈ t.steps 0 t.len, k < m) :
    (∀ i ∈ t.runReads l, i < m) ↔ CopiedWithin t l m := by
  rw [runReads, CopiedWithin, laidOf]
  split
  · exact forall_literalReads_lt hm _
  · exact forall_wordReads_lt hm

/-- The codepoints of a run lie within it. -/
theorem lt_of_mem_steps {k : Nat} (h : k ∈ t.steps 0 t.len) : k < t.len := (mem_positions h).2

/-- What a run reads of itself. -/
theorem inBounds_hereReads {r : PageRenderer} :
    InBounds (r.hereReads t) ↔ CopiedWithin t r.toLayout t.len := by
  rw [hereReads, inBounds_readsOf]
  exact forall_runReads_lt fun _ => lt_of_mem_steps

/-- The codepoints laid out are codepoints of the run. -/
theorem mem_steps_of_mem_laidOf {k : Nat} (h : k ∈ laidOf t l) : k ∈ t.steps 0 t.len := by
  have hfitting : ∀ ks x, k ∈ fitting x ks → k ∈ ks := by
    intro ks
    induction ks with
    | nil => exact fun x hx => hx
    | cons j ks ih =>
      intro x hx
      rw [fitting] at hx
      split at hx
      · cases hx
      · rcases List.mem_cons.mp hx with rfl | hx
        · exact List.mem_cons_self
        · exact List.mem_cons_of_mem j (ih _ hx)
  rw [laidOf] at h
  split at h
  · exact hfitting _ _ h
  · exact h

/-- The tags are ASCII. -/
theorem inBounds_hereReads_ascii {r : PageRenderer} (h : ∀ k < t.len, t.seqLenAt k = 1) :
    InBounds (r.hereReads t) := by
  refine inBounds_hereReads.mpr fun k hk => ?_
  have hlt := lt_of_mem_steps (mem_steps_of_mem_laidOf hk)
  rw [h k hlt]
  exact hlt

/-! ## Text -/

/-- **The condition of a run of text**: a preformatted heading is decoded before it is clipped, and
only sequences of two and three bytes are. -/
structure TextWithin (o : Options) (t : Span) (s : Style) (r : PageRenderer) : Prop where
  /-- The sequences that are copied end within the run. -/
  copied : CopiedWithin t (r.openText o t s).toLayout t.len
  /-- So do those that are decoded. -/
  decoded : s.literal = true → Decodes o s r →
    ∀ k ∈ t.decoded o (wantedHead s.depth) (t.steps 0 t.len), t.seqLenAt k ≤ 3 →
      k + t.seqLenAt k ≤ t.len

/-- Decoding a codepoint. -/
theorem forall_decodeReads_lt {k : Nat} (hk : k < t.len) :
    (∀ i ∈ t.decodeReads k, i < t.len) ↔ (t.seqLenAt k ≤ 3 → k + t.seqLenAt k ≤ t.len) := by
  have hpos := t.seqLenAt_pos k
  rw [decodeReads]
  split_ifs with htwo hthree
  · simp only [List.forall_mem_cons, List.not_mem_nil, false_imp_iff, implies_true, and_true]
    omega
  · simp only [List.forall_mem_cons, List.not_mem_nil, false_imp_iff, implies_true, and_true]
    omega
  · simp only [List.forall_mem_cons, List.not_mem_nil, false_imp_iff, implies_true, and_true]
    omega

/-- The codepoints decoded are codepoints of the run. -/
theorem mem_of_mem_decoded {want : Head} {ks : List Nat} {k : Nat} (h : k ∈ t.decoded o want ks) :
    k ∈ ks := by
  induction ks with
  | nil => exact h
  | cons j ks ih =>
    rw [Span.decoded] at h
    rcases List.mem_cons.mp h with rfl | h
    · exact List.mem_cons_self
    · split at h
      · exact List.mem_cons_of_mem j (ih h)
      · cases h

/-- **`onText` reads within its run.** -/
theorem inBounds_textReads {s : Style} {r : PageRenderer} :
    InBounds (r.textReads o t s) ↔ TextWithin o t s r := by
  have hlit : (r.openText o t s).literal = s.literal := rfl
  have hdecode : (∀ i ∈ (t.decoded o (wantedHead s.depth) (t.steps 0 t.len)).flatMap t.decodeReads,
      i < t.len) ↔ ∀ k ∈ t.decoded o (wantedHead s.depth) (t.steps 0 t.len), t.seqLenAt k ≤ 3 →
        k + t.seqLenAt k ≤ t.len := by
    rw [List.forall_mem_flatMap]
    exact forall₂_congr fun k hk => forall_decodeReads_lt (lt_of_mem_steps (mem_of_mem_decoded hk))
  rw [textReads, inBounds_readsOf, List.forall_mem_append, List.forall_mem_append,
    forall_runReads_lt fun _ => lt_of_mem_steps]
  constructor
  · rintro ⟨⟨-, hladder⟩, hcopied⟩
    refine ⟨hcopied, fun _ hdec => ?_⟩
    rw [if_pos hdec] at hladder
    exact hdecode.mp hladder
  · intro h
    refine ⟨⟨fun i hi => ?_, ?_⟩, h.copied⟩
    · split at hi
      · exact lt_of_mem_steps hi
      · cases hi
    · split
      next hdec =>
        refine hdecode.mpr fun k hk hle => ?_
        by_cases hl : s.literal = true
        · exact h.decoded hl hdec k hk hle
        · -- prose copies all that is decoded
          refine h.copied k ?_
          rw [laidOf, if_neg (hlit ▸ hl)]
          exact mem_of_mem_decoded hk
      next => exact fun i hi => absurd hi List.not_mem_nil

/-! ## Text fields -/

/-- The cells of a text field that there is room for. -/
def fieldRoom (w : Nat) (l : Layout) : Nat := min w ((right - l.x.toNat) / fontAdvance)

/-- **The condition of a text field** of a width: the value is copied only where it is shown. -/
def ValueWithin (f : Field) (w : Nat) (r : PageRenderer) : Prop :=
  r.rowVisible = true → f.masked = false →
    ∀ k ∈ (f.value.steps 0 f.value.len).take (fieldRoom w r.toLayout),
      k + f.value.seqLenAt k ≤ f.value.len

/-- There is room for one cell more than behind the first. -/
theorem fieldRoom_succ (n : Nat) {l m : Layout} (hin : ¬ right < l.x.toNat + fontAdvance)
    (hx : m.x.toNat = l.x.toNat + fontAdvance) : fieldRoom (n + 1) l = fieldRoom n m + 1 := by
  have hright : right = 398 := rfl
  have hsix : fontAdvance = 6 := rfl
  rw [fieldRoom, fieldRoom, hx, hright, hsix]
  omega

/-- There is no room at the margin. -/
theorem fieldRoom_eq_zero (n : Nat) {l : Layout} (hclip : right < l.x.toNat + fontAdvance) :
    fieldRoom n l = 0 := by
  have hright : right = 398 := rfl
  have hsix : fontAdvance = 6 := rfl
  rw [fieldRoom, hright, hsix]
  omega

/-- **The cells of a field read within its value**, from any cursor. -/
theorem forall_fieldReads_lt {f : Field} {s : Style} (n vk : Nat) (r : PageRenderer) :
    (∀ i ∈ fieldReads f s n vk r, i < f.value.len) ↔ (r.rowVisible = true → f.masked = false →
      ∀ k ∈ (f.value.steps vk f.value.len).take (fieldRoom n r.toLayout),
        k + f.value.seqLenAt k ≤ f.value.len) := by
  induction n generalizing vk r with
  | zero => simp [fieldReads, fieldRoom]
  | succ n ih =>
    rw [fieldReads]
    split
    next hclip => simp [fieldRoom_eq_zero (n + 1) hclip]
    next hin =>
      have hvisible : ((r.paint (fieldCellOps f s vk)).penOver
          (UInt16.ofNat fontAdvance)).rowVisible = r.rowVisible :=
        rowVisible_paint (fieldCellOps f s vk) r
      have hroom : fieldRoom (n + 1) r.toLayout = fieldRoom n
          ((r.paint (fieldCellOps f s vk)).penOver (UInt16.ofNat fontAdvance)).toLayout + 1 :=
        fieldRoom_succ n hin (penOver_cell_x _ hin)
      have hrest := ih (if vk < f.value.len then vk + f.value.seqLenAt vk else vk)
        ((r.paint (fieldCellOps f s vk)).penOver (UInt16.ofNat fontAdvance))
      rw [hvisible] at hrest
      refine (List.forall_mem_append.trans (and_congr_right' hrest)).trans ?_
      rw [hroom]
      by_cases hvk : vk < f.value.len
      · -- one more sequence of the value
        have hsteps : f.value.steps vk f.value.len
            = vk :: f.value.steps (vk + f.value.seqLenAt vk) f.value.len := by
          rw [steps, positions_eq f.value.seqLenAt_pos, if_pos hvk]
          rfl
        rw [if_pos hvk, if_pos hvk, hsteps, List.take_succ_cons]
        simp only [List.forall_mem_cons]
        by_cases hshown : r.rowVisible = true ∧ f.masked = false
        · rw [if_pos hshown, forall_copied_lt]
          simp only [hshown.1, hshown.2, forall_const]
        · rw [if_neg hshown]
          exact ⟨fun _ hv hmask => absurd ⟨hv, hmask⟩ hshown,
            fun _ => ⟨by simpa using hvk, fun hv hmask => absurd ⟨hv, hmask⟩ hshown⟩⟩
      · rw [if_neg hvk, if_neg hvk, steps, positions_of_le (Nat.not_lt.mp hvk)]
        simp

/-! ## Rows of tables -/

variable {row : Span}

/-- The label of a link is read where it is. -/
theorem mem_of_mem_labelReads {tlen : Nat} {qs : List Nat} {s : Strip} {i : Nat}
    (h : i ∈ Strip.labelReads row tlen qs s) : i ∈ qs := by
  induction qs generalizing s with
  | nil => exact h
  | cons q qs ih =>
    rw [Strip.labelReads] at h
    split_ifs at h
    · rcases List.mem_cons.mp h with rfl | h
      · exact List.mem_cons_self
      · exact List.mem_cons_of_mem q (ih h)
    · cases h
    · cases h

/-- **Stripping a cell reads within it**: what is looked at ahead is tested for. -/
theorem lt_of_mem_textReads {tlen ce fuel k i : Nat} {s : Strip}
    (h : i ∈ Strip.textReads row tlen ce fuel k s) : i < ce := by
  have hone : ∀ _ : Nat, 0 < 1 := fun _ => Nat.one_pos
  induction fuel generalizing k s with
  | zero => cases h
  | succ fuel ih =>
    rw [Strip.textReads] at h
    split at h
    next hk =>
      rcases List.mem_cons.mp h with rfl | h
      · exact hk.1
      · split at h
        next hmark =>
          rcases List.mem_cons.mp h with rfl | h
          · exact hmark.2
          · split at h
            · -- a link
              rcases List.mem_append.mp h with h | h
              · rcases List.mem_append.mp h with h | h
                · exact (strides_of_mem_tested hone h).2
                · have hstop : Strip.labelEnd row ce k ≤ Strip.linkEnd row ce k :=
                    scan_one_le (le_scan _)
                  have hend : Strip.linkEnd row ce k ≤ ce := scan_one_le hmark.2
                  obtain ⟨hle, hlt⟩ := List.mem_range'_1.mp (mem_of_mem_labelReads h)
                  omega
              · exact ih h
            · rcases List.mem_append.mp h with h | h
              · split at h
                next hahead =>
                  rw [List.mem_singleton.mp h]
                  exact hahead.2
                next => cases h
              · exact ih h
        next =>
          split at h
          · exact ih h
          · cases h
    next => cases h

/-- A cell reads within its row, and then within itself. -/
theorem inBounds_cellReads {cs ce : Nat} {t : TableState} (hce : ce ≤ row.len) :
    InBounds (t.cellReads row cs ce) := by
  rw [TableState.cellReads, inBounds_append, inBounds_readsOf, inBounds_readsOf]
  exact ⟨fun i hi => (lt_of_mem_textReads hi).trans_le hce, fun i hi => lt_of_mem_steps hi⟩

/-- So do the cells of a row. -/
theorem inBounds_cellsReads {b r left i col : Nat} {t : TableState} (hb : b ≤ row.len) :
    InBounds (TableState.cellsReads row b r left i col t) := by
  have hone : ∀ _ : Nat, 0 < 1 := fun _ => Nat.one_pos
  induction left generalizing i col t with
  | zero => exact inBounds_nil
  | succ left ih =>
    rw [TableState.cellsReads]
    split
    next hi =>
      have hcell : scan (fun k => row.byte k != 0x7C) (fun _ => 1) b i ≤ b := scan_one_le hi
      have hback := backWhile_le (p := fun k => isSpace (row.byte k))
        (scan (fun k => isSpace (row.byte k)) (fun _ => 1)
          (scan (fun k => row.byte k != 0x7C) (fun _ => 1) b i) i)
        (scan (fun k => row.byte k != 0x7C) (fun _ => 1) b i)
      simp only [inBounds_append, inBounds_readsOf, List.forall_mem_append]
      refine ⟨⟨⟨⟨fun j hj => ?_, fun j hj => ?_⟩, fun j hj => ?_⟩, ?_⟩, ih⟩
      · exact (strides_of_mem_tested hone hj).2.trans_le hb
      · exact (strides_of_mem_tested hone hj).2.trans_le (hcell.trans hb)
      · exact (lt_of_mem_backTested hj).trans_le (hcell.trans hb)
      · exact inBounds_cellReads (hback.trans (hcell.trans hb))
    next => exact inBounds_nil

/-- **`onTableRow` reads within its row**, whatever the bytes. -/
theorem inBounds_rowReads (t : TableState) : InBounds (t.rowReads row) := by
  have hone : ∀ _ : Nat, 0 < 1 := fun _ => Nat.one_pos
  have hb := backWhile_le (p := fun k => TableState.isEdge (row.byte k))
    (scan (fun k => TableState.isEdge (row.byte k)) (fun _ => 1) row.len 0) row.len
  rw [TableState.rowReads]
  simp only [inBounds_append, inBounds_readsOf, List.forall_mem_append]
  refine ⟨⟨⟨fun i hi => (strides_of_mem_tested hone hi).2, fun i hi => lt_of_mem_backTested hi⟩,
    fun i hi => ?_⟩, ?_⟩
  · split at hi
    · exact (strides_of_mem_tested hone hi).2.trans_le hb
    · cases hi
  · split
    · exact inBounds_nil
    · exact inBounds_cellsReads hb

/-! ## Cells -/

variable {p : Span}

/-- The walk of a line reads within the cell. -/
theorem lt_of_mem_walkTested {w e i : Nat} (h : i ∈ p.walkTested w e) : i < p.len := by
  induction w generalizing e with
  | zero => cases h
  | succ w ih =>
    rw [walkTested] at h
    split at h
    next hlt =>
      rcases List.mem_cons.mp h with rfl | h
      · exact hlt
      · exact ih h
    next => cases h

/-- So does its break. -/
theorem lt_of_mem_breakTested {w start i : Nat} (h : i ∈ p.breakTested w start) : i < p.len := by
  rcases List.mem_append.mp h with h | h
  · exact lt_of_mem_walkTested h
  · split at h
    next hlt =>
      rcases List.mem_cons.mp h with rfl | h
      · exact hlt
      · split at h
        · exact (lt_of_mem_backTested h).trans hlt
        · cases h
    next => cases h

/-- So do the spaces behind it. -/
theorem lt_of_mem_nextTested {w start i : Nat} (h : i ∈ p.nextTested w start) : i < p.len := by
  rcases List.mem_append.mp h with h | h
  · exact lt_of_mem_breakTested h
  · exact (strides_of_mem_tested (fun _ => Nat.one_pos) h).2

/-- So does the count of the lines. -/
theorem lt_of_mem_linesTested {w fuel start i : Nat} (h : i ∈ p.linesTested w fuel start) :
    i < p.len := by
  induction fuel generalizing start with
  | zero => cases h
  | succ fuel ih =>
    rw [linesTested] at h
    split at h
    · rcases List.mem_append.mp h with h | h
      · exact lt_of_mem_nextTested h
      · exact ih h
    · cases h

/-- So does the walk to a line. -/
theorem lt_of_mem_startTested {w k start i : Nat} (h : i ∈ p.startTested w k start) :
    i < p.len := by
  induction k generalizing start with
  | zero => cases h
  | succ k ih =>
    rw [startTested] at h
    rcases List.mem_append.mp h with h | h
    · exact lt_of_mem_nextTested h
    · split at h
      · cases h
      · exact ih h

/-- **A slice is found within the cell.** -/
theorem lt_of_mem_sliceTested {w ln i : Nat} (h : i ∈ p.sliceTested w ln) : i < p.len := by
  rcases List.mem_append.mp h with h | h
  · exact lt_of_mem_startTested h
  · exact lt_of_mem_breakTested h

/-- The codepoints of a line lie within the cell, even if the last of them does not end in it. -/
theorem lt_of_mem_line {w start k : Nat} (h : k ∈ p.steps start (p.breakLine w start)) :
    k < p.len := by
  have hwalk : ∀ {j}, j ∈ p.steps start (p.walk w start) → j < p.len := fun hj =>
    (strides_of_mem_positions p.seqLenAt_pos (strides_walk w start) hj).2
  simp only [breakLine] at h
  split at h
  next hin =>
    split at h
    · -- behind a space in front of the end of the walk
      have hback := backWhile_le (p := fun j => p.byte j != 0x20) start (p.walk w start)
      exact (mem_positions h).2.trans_le (hback.trans (Nat.le_of_lt hin.1))
    · exact hwalk h
  next => exact hwalk h

/-- A codepoint of a slice is one of its line. -/
theorem mem_line_of_mem_slice {w ln k : Nat}
    (h : k ∈ (p.slice w ln).steps 0 (p.slice w ln).len) :
    p.lineStart w ln 0 + k ∈ p.steps (p.lineStart w ln 0) (p.breakLine w (p.lineStart w ln 0)) := by
  rw [← p.steps_sub (p.le_breakLine w (p.lineStart w ln 0))]
  exact List.mem_map_of_mem h

/-- So do those of a slice. -/
theorem lt_of_mem_slice {w ln k : Nat} (h : k ∈ (p.slice w ln).steps 0 (p.slice w ln).len) :
    k < p.len - p.lineStart w ln 0 := by
  have hlt := lt_of_mem_line (mem_line_of_mem_slice h)
  omega

/-! ## Tables -/

/-- **The condition of a slice**: it ends with a sequence, inside its cell. -/
def SliceWithin (row ln : Nat) (r : PageRenderer) (c : Nat) : Prop :=
  let q := (r.cell row c).slice (r.colW c) ln
  CopiedWithin q (r.toColumn c).toLayout q.len ∧ CopiedWithin q (r.toColumn c).toLayout
    ((r.cell row c).len - (r.cell row c).lineStart (r.colW c) ln 0)

/-- The condition of a line: its slices are read only if it is visible. -/
def LineWithin (row : Nat) (r : PageRenderer) (ln : Nat) : Prop :=
  r.rowVisible = true → ∀ c < r.tableCols, SliceWithin row ln r c

/-- **The condition of a table**: that of each of its lines, as they are drawn. -/
def TableWithin (o : Options) (r : PageRenderer) : Prop :=
  Runs.Along (tableRow o)
    (fun r row => Runs.Along (tableLine o row) (LineWithin row) r (List.range (r.rowLines row)))
    r (List.range r.tRows)

/-- A slice. -/
theorem inBounds_sliceReads {row ln c : Nat} {r : PageRenderer} :
    InBounds (sliceReads row ln r c) ↔ SliceWithin row ln r c := by
  have hfound : ∀ i ∈ (r.cell row c).sliceTested (r.colW c) ln, i < (r.cell row c).len :=
    fun i => lt_of_mem_sliceTested
  simp only [sliceReads, SliceWithin, inBounds_append, inBounds_readsOf, List.forall_mem_map,
    and_iff_right hfound]
  split
  next hempty =>
    -- an empty slice is not copied, and there is nothing in it to copy
    have hnone : laidOf ((r.cell row c).slice (r.colW c) ln) (r.toColumn c).toLayout = [] :=
      List.eq_nil_iff_forall_not_mem.mpr fun k hk => by
        have hlt := lt_of_mem_steps (mem_steps_of_mem_laidOf hk)
        rw [hempty] at hlt
        exact absurd hlt (Nat.not_lt_zero k)
    simp [CopiedWithin, hnone]
  next =>
    refine and_congr (forall_runReads_lt fun _ => lt_of_mem_steps) ?_
    rw [← forall_runReads_lt fun _ => lt_of_mem_slice]
    exact forall₂_congr fun i _ => by omega

/-- Slices drawn leave the condition of a slice alone. -/
theorem OnlyPen.sliceWithin_iff {r s : PageRenderer} (h : OnlyPen r s) (row ln c : Nat) :
    SliceWithin row ln s c ↔ SliceWithin row ln r c := by
  rw [SliceWithin, h.toLayout_toColumn, h.table_eq]
  rfl

/-- **The slices of a cell that breaks between its sequences** end with one, inside it. -/
theorem Unbroken.sliceWithin {row c : Nat} {r : PageRenderer} (h : Unbroken (r.cell row c))
    (ln : Nat) : SliceWithin row ln r c := by
  let p := r.cell row c
  let start := p.lineStart (r.colW c) ln 0
  have hstart : Strides p.seqLenAt p.len 0 start := (h.flatMap_slices ln).1
  have hline : Strides p.seqLenAt p.len start (p.breakLine (r.colW c) start) :=
    h.strides_breakLine hstart
  have hend : p.breakLine (r.colW c) start ≤ p.len := h.strides_le (hstart.trans hline)
  have hle : start ≤ p.breakLine (r.colW c) start := p.le_breakLine _ _
  have hcopied : CopiedWithin (p.slice (r.colW c) ln) (r.toColumn c).toLayout
      (p.breakLine (r.colW c) start - start) := by
    intro k hk
    have hat := mem_line_of_mem_slice (mem_steps_of_mem_laidOf hk)
    have hstride : start + k + p.seqLenAt (start + k) ≤ p.breakLine (r.colW c) start :=
      add_le_of_mem_positions p.seqLenAt_pos hline hat
    have hlen : (p.slice (r.colW c) ln).seqLenAt k = p.seqLenAt (start + k) := rfl
    omega
  refine ⟨hcopied, fun k hk => ?_⟩
  have hk' := hcopied k hk
  show k + (p.slice (r.colW c) ln).seqLenAt k ≤ p.len - start
  omega

/-- **A table of such cells** is read within them. -/
theorem tableWithin_of_unbroken {r : PageRenderer} (h : ∀ row c, Unbroken (r.cell row c)) :
    TableWithin o r := by
  have hcell : ∀ s : PageRenderer, s.toTableState = r.toTableState → ∀ row c,
      Unbroken (s.cell row c) := fun s hs row c => hs ▸ h row c
  rw [TableWithin]
  refine Runs.along_of_invariant (fun s : PageRenderer => s.toTableState = r.toTableState)
    (fun s row hs => (onlyPen_tableRow s row).table_eq.trans hs) (fun s row hs => ?_) rfl _
  refine Runs.along_of_invariant (fun s : PageRenderer => s.toTableState = r.toTableState)
    (fun s ln hs => (onlyPen_tableLine row s ln).table_eq.trans hs) (fun s ln hs => ?_) hs _
  exact fun _ c _ => (hcell s hs row c).sliceWithin ln

/-- A line. -/
theorem inBounds_lineReads {row ln : Nat} {r : PageRenderer} :
    InBounds (r.lineReads o row ln) ↔ LineWithin row r ln := by
  rw [lineReads, LineWithin]
  split
  next hv =>
    rw [inBounds_outputs, Runs.along_iff_forall fun s c c' => ?_]
    · simp only [inBounds_sliceReads, List.mem_range, hv, forall_const]
    · rw [inBounds_sliceReads, inBounds_sliceReads]
      exact (onlyPen_emitSlice row ln s c).sliceWithin_iff row ln c'
  next hv => simp [hv]

/-- A row: counting its lines reads within the cells. -/
theorem inBounds_tableRowReads {row : Nat} {r : PageRenderer} :
    InBounds (r.tableRowReads o row) ↔
      Runs.Along (tableLine o row) (LineWithin row) r (List.range (r.rowLines row)) := by
  have hcount : InBounds ((List.range r.tableCols).flatMap fun c =>
      if r.cellLen row c = 0 ∨ r.colW c = 0 then []
      else readsOf (r.cell row c).len ((r.cell row c).linesTested (r.colW c) 32 0)) := by
    rw [inBounds_flatMap]
    intro c _
    split
    · exact inBounds_nil
    · exact inBounds_readsOf.mpr fun i hi => lt_of_mem_linesTested hi
  rw [tableRowReads, inBounds_append, and_iff_right hcount, inBounds_outputs]
  exact Runs.along_congr (fun s ln _ => inBounds_lineReads) r

/-- **`table_flush` reads within the cells.** -/
theorem inBounds_flushReads {r : PageRenderer} :
    InBounds (r.flushReads o) ↔ NothingDrawn r ∨ TableWithin o r.fitTable := by
  rw [flushReads]
  split
  next hnone => simp [hnone]
  next hdrawn =>
    rw [or_iff_right hdrawn, inBounds_outputs]
    exact Runs.along_congr (fun s row _ => inBounds_tableRowReads) r.fitTable

/-! ## Callbacks -/

/-- The width of a text field. -/
def fieldWidth (f : Field) : Nat := if f.width = 0 then 1 else f.width.toNat

/-- **The condition of a callback**, on the state before it. -/
def StepWithin (o : Options) (r : PageRenderer) : Callback → Prop
  | .text t s => TextWithin o t s r
  | .link label _ s => CopiedWithin label (r.setDepth s).freshRow.toLayout label.len
  | .field f s =>
      if f.kind = .text then ValueWithin f (fieldWidth f) (r.setDepth s).freshRow
      else
        CopiedWithin f.label ((labelStart f s r).emitHere o (.ofList [0x20])).toLayout f.label.len
  | .image alt url s =>
      let shown := if alt.len = 0 then url else alt
      CopiedWithin shown ((r.setDepth s).emitHere o imageTag).toLayout shown.len
  | .part url s => CopiedWithin url
      (((r.setDepth s).emitHere o partialTag).setDepth s).freshRow.toLayout url.len
  | .tableEnd s => NothingDrawn (r.setDepth s) ∨ TableWithin o (r.setDepth s).fitTable
  | .blankLine | .divider _ _ | .anchor | .lineEnd _ | .tableBegin _ | .tableRow _ _ => True

/-- A field. -/
theorem inBounds_fieldReads {f : Field} {s : Style} {r : PageRenderer} :
    InBounds (r.reads o (.field f s)) ↔ StepWithin o r (.field f s) := by
  rw [reads, StepWithin]
  split
  · have hcells := forall_fieldReads_lt (f := f) (s := s) (fieldWidth f) 0
      ((r.setDepth s).freshRow.paint (fieldBarOps o (fieldWidth f) s))
    rw [rowVisible_paint, toLayout_paint] at hcells
    exact inBounds_readsOf.trans hcells
  · split
    next hempty =>
      refine iff_of_true inBounds_nil fun k hk => ?_
      have hlt := lt_of_mem_steps (mem_steps_of_mem_laidOf hk)
      rw [hempty] at hlt
      exact absurd hlt (Nat.not_lt_zero k)
    next =>
      have hspace : InBounds ((labelStart f s r).hereReads (.ofList [0x20])) :=
        inBounds_hereReads_ascii (by decide)
      rw [inBounds_append, and_iff_right hspace]
      exact inBounds_hereReads

/-- **A callback reads within its runs and cells iff it meets the condition.** -/
theorem inBounds_reads {r : PageRenderer} (c : Callback) :
    InBounds (r.reads o c) ↔ StepWithin o r c := by
  cases c with
  | text t s => exact inBounds_textReads
  | link label target s => exact inBounds_hereReads
  | field f s => exact inBounds_fieldReads
  | image alt url s =>
    have htag : InBounds ((r.setDepth s).hereReads imageTag) :=
      inBounds_hereReads_ascii (by decide)
    rw [reads, inBounds_append, and_iff_right htag]
    exact inBounds_hereReads
  | part url s =>
    have htag : InBounds ((r.setDepth s).hereReads partialTag) :=
      inBounds_hereReads_ascii (by decide)
    rw [reads, inBounds_append, and_iff_right htag]
    exact inBounds_hereReads
  | tableRow row s => exact iff_of_true (inBounds_rowReads _) trivial
  | tableEnd s => exact inBounds_flushReads
  | blankLine => exact iff_of_true inBounds_nil trivial
  | divider ch s => exact iff_of_true inBounds_nil trivial
  | anchor => exact iff_of_true inBounds_nil trivial
  | lineEnd s => exact iff_of_true inBounds_nil trivial
  | tableBegin s => exact iff_of_true inBounds_nil trivial

/-- **No byte past the end of a run or of a cell is read**, in any run of the renderer, iff every
callback meets its condition: the sequences that are copied are not cut off. -/
theorem never_reads_past_iff (o : Options) (r : PageRenderer) (cs : List Callback) :
    Runs.Along (step o) (fun r c => InBounds (r.reads o c)) r cs
      ↔ Runs.Along (step o) (StepWithin o) r cs :=
  Runs.along_congr (fun _ c _ => inBounds_reads c) r

/-- **A lead byte at the end** of a run, and of a cell, reads what lies behind. -/
theorem cut_sequence_reads_past :
    ¬ InBounds (((fresh fun _ => 0).begin 0).reads { fonts := Display.blankFonts }
        (.text (.ofList [0x41, 0xC3]) {})) ∧
    ¬ InBounds ((Runs.run (step { fonts := Display.blankFonts }) ((fresh fun _ => 0).begin 0)
        [.tableBegin {}, .tableRow (.ofList [0x7C, 0x41, 0xC3, 0x7C]) {}]).reads
          { fonts := Display.blankFonts } (.tableEnd {})) :=
  ⟨by decide +kernel, by decide +kernel⟩

end Thicket.Page
