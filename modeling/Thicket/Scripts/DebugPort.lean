import Thicket.Scripts.CComments

/-! # What the debug-port gate sees

The tokens that stand in code, that is outside the comments of C, and the tokens that the script
reports. A token is read differently where one of its characters is a comment for the one and none
for the other: behind a `;`, say, or in what `/*` opens inside a `//` comment. -/

namespace Thicket.Scripts

open Thicket.Regex Thicket.Regex.Pattern

/-! ## Tokens in a text -/

/-- A pattern matches from one place of a text to another. -/
def MatchAt (p : Pattern Char) (text : List Char) (i e : Nat) : Prop :=
  ∃ l m r, text = l ++ m ++ r ∧ l.length = i ∧ i + m.length = e ∧ p.Spans l.reverse m r

/-- The line of a place, from 1. -/
def lineAt (text : List Char) (i : Nat) : Nat := (text.take i).count '\n' + 1

/-- The text without its comments. -/
def codeOf (text : List Char) : List Char := paint blankChar (comments text) text

/-- The text as the script reads it. -/
def seenOf (text : List Char) : List Char := paint blankChar (hidden text) text

/-- **Both readings take a piece for the same**, character by character. -/
def Agree (text : List Char) (i e : Nat) : Prop :=
  ∀ p, i ≤ p → p < e → (hidden text)[p]? = (comments text)[p]?

variable (uni : Char → Bool) (text : List Char) (k : Forbidden) (line : Nat)

/-- **A token stands on a line outside the comments.** -/
def InCode : Prop :=
  ∃ i e, MatchAt (k.pattern uni) (codeOf text) i e ∧ lineAt text i = line

/-- It stands there in plain view. -/
def InView : Prop :=
  ∃ i e, MatchAt (k.pattern uni) (codeOf text) i e ∧ Agree text i e ∧ lineAt text i = line

/-- It stands there, and the script takes a character of it for another than it is. -/
def Missed : Prop :=
  ∃ i e, MatchAt (k.pattern uni) (codeOf text) i e ∧ ¬ Agree text i e ∧ lineAt text i = line

/-- The script reads it there, and takes a character of it for another than it is. -/
def Phantom : Prop :=
  ∃ i e, MatchAt (k.pattern uni) (seenOf text) i e ∧ ¬ Agree text i e ∧ lineAt text i = line

/-- **The script reports a token on a line.** -/
def Reports (path : String) : Prop :=
  ∃ f ∈ scanText uni path text, f.line = line ∧ f.why = k.why

/-- **The reading of the script makes no difference**: on a line where a token is not in plain view,
it is neither missed nor a phantom, or it is both. -/
def SameTokens : Prop :=
  ∀ k line, ¬ InView uni text k line → (Missed uni text k line ↔ Phantom uni text k line)

/-- **Every token is in plain view**: both readings take its characters for the same, whether it
stands in code or the script reads it. -/
def AllInView : Prop :=
  ∀ (k : Forbidden) (i e : Nat),
    MatchAt (k.pattern uni) (codeOf text) i e ∨ MatchAt (k.pattern uni) (seenOf text) i e →
      Agree text i e

/-! ## Readings -/

variable {uni text k line}

/-- Painting keeps the newlines. -/
theorem count_paint {ms : List Bool} (h : ms.length = text.length) :
    (paint blankChar ms text).count '\n' = text.count '\n' := by
  induction text generalizing ms with
  | nil => rw [paint, List.zipWith_nil_right]
  | cons c text ih =>
    obtain ⟨b, ms, rfl⟩ := List.exists_cons_of_length_eq_add_one h
    have hchar : ((if b then blankChar c else c) == '\n') = (c == '\n') := by
      rw [Bool.eq_iff_iff, beq_iff_eq, beq_iff_eq]
      refine ⟨eq_newline_of_painted, ?_⟩
      rintro rfl
      cases b <;> rfl
    have hrest := ih (Nat.succ.inj h)
    rw [paint] at hrest
    rw [paint, List.zipWith_cons_cons, List.count_cons, List.count_cons, hrest, hchar]

/-- The lines of a painted text are those of the text. -/
theorem lineAt_paint {ms : List Bool} (h : ms.length = text.length) (i : Nat) :
    lineAt (paint blankChar ms text) i = lineAt text i := by
  have htake : (ms.take i).length = (text.take i).length := by
    rw [List.length_take, List.length_take, h]
  have hcount := count_paint htake
  rw [paint] at hcount
  rw [lineAt, lineAt, paint, List.take_zipWith, hcount]

/-- What a token is looked for next to. -/
def Bland (uni : Char → Bool) (c : Char) : Prop := isWord uni c = false ∧ c ≠ '='

/-- Nothing that a pattern looks for is bland. -/
theorem Bland.eq_false {c : Char} (h : Bland uni c) {q : Char → Bool}
    (hq : q ∈ (k.pattern uni).looks) : q c = false := by
  have hmem := k.looks_subset hq
  simp only [List.mem_cons, List.not_mem_nil, or_false] at hmem
  obtain rfl | rfl := hmem
  · exact h.1
  · exact beq_eq_false_iff_ne.mpr h.2

/-- What a comment begins or ends with is bland, as it stands and painted. -/
theorem bland_painted {c : Char} (h : c = '/' ∨ c = ';') (b : Bool) :
    Bland uni (if b then blankChar c else c) := by
  cases b with
  | false => obtain rfl | rfl := h <;> exact ⟨rfl, by decide⟩
  | true => obtain rfl | rfl := h <;> exact ⟨rfl, by decide⟩

variable {ms ns : List Bool}

/-- A character of a painted text that is no space is not marked. -/
theorem unmarked_of_not_space {p : Nat} {c : Char}
    (h : (paint blankChar ms text)[p]? = some c) (hc : isSpace c = false) :
    ms[p]? = some false ∧ text[p]? = some c := by
  obtain ⟨b, d, hb, hd, rfl⟩ := getElem?_paint.mp h
  cases b with
  | false => exact ⟨hb, hd⟩
  | true =>
    have hspace : isSpace (blankChar d) = true := by
      unfold blankChar
      split
      next => rfl
      next hnl =>
        obtain rfl : d = '\n' := by simpa [notNewline] using hnl
        rfl
    rw [if_pos rfl, hspace] at hc
    cases hc

/-- **Two paintings look alike** at a place where only a `/` or a `;` is marked. -/
theorem any_paint (hms : Fenced text ms) (hns : Fenced text ns) {p : Nat}
    (hmarks : ∀ c, text[p]? = some c → ms[p]? = some true ∨ ns[p]? = some true →
      c = '/' ∨ c = ';') {q : Char → Bool} (hq : q ∈ (k.pattern uni).looks) :
    (paint blankChar ns text)[p]?.any q = (paint blankChar ms text)[p]?.any q := by
  cases ht : text[p]? with
  | none =>
    have hlen := List.getElem?_eq_none_iff.mp ht
    rw [List.getElem?_eq_none, List.getElem?_eq_none]
    · rw [paint, List.length_zipWith, hms.length_eq, Nat.min_self]
      exact hlen
    · rw [paint, List.length_zipWith, hns.length_eq, Nat.min_self]
      exact hlen
  | some c =>
    have hlen := (List.getElem?_eq_some_iff.mp ht).1
    obtain ⟨a, ha⟩ : ∃ a, ms[p]? = some a := ⟨_, List.getElem?_eq_getElem (hms.length_eq ▸ hlen)⟩
    obtain ⟨b, hb⟩ : ∃ b, ns[p]? = some b := ⟨_, List.getElem?_eq_getElem (hns.length_eq ▸ hlen)⟩
    rw [getElem?_paint.mpr ⟨a, c, ha, ht, rfl⟩, getElem?_paint.mpr ⟨b, c, hb, ht, rfl⟩]
    show q _ = q _
    by_cases hmarked : ms[p]? = some true ∨ ns[p]? = some true
    · have hc := hmarks c ht hmarked
      rw [(bland_painted hc a).eq_false hq, (bland_painted hc b).eq_false hq]
    · -- neither marks it
      rw [ha, hb, not_or, Option.some.injEq, Option.some.injEq, Bool.not_eq_true,
        Bool.not_eq_true] at hmarked
      rw [hmarked.1, hmarked.2]

/-- **Behind a token** both readings find the same of what it is looked for next to. -/
theorem any_behind (hms : Fenced text ms) (hns : Fenced text ns) {p : Nat}
    (hm : ms[p]? = some false) (hn : ns[p]? = some false) {q : Char → Bool}
    (hq : q ∈ (k.pattern uni).looks) :
    (paint blankChar ns text)[p + 1]?.any q = (paint blankChar ms text)[p + 1]?.any q := by
  refine any_paint hms hns (fun c hc => ?_) hq
  rintro (h | h)
  · exact hms.opens p c hm h hc
  · exact hns.opens p c hn h hc

/-- **In front of a token** too. -/
theorem any_before (hms : Fenced text ms) (hns : Fenced text ns) {p : Nat}
    (hm : ms[p + 1]? = some false) (hn : ns[p + 1]? = some false)
    (hline : text[p + 1]? ≠ some '\n') {q : Char → Bool} (hq : q ∈ (k.pattern uni).looks) :
    (paint blankChar ns text)[p]?.any q = (paint blankChar ms text)[p]?.any q := by
  refine any_paint hms hns (fun c hc => ?_) hq
  rintro (h | h)
  · exact .inl (Option.some.inj (hc.symm.trans (hms.closes p h hm hline)))
  · exact .inl (Option.some.inj (hc.symm.trans (hns.closes p h hn hline)))

/-- **A match depends on its piece**, and on what the pattern looks for next to it. -/
theorem MatchAt.congr {p : Pattern Char} {s u : List Char} {i e : Nat} (h : MatchAt p s i e)
    (hlen : u.length = s.length) (hpiece : ∀ j, i ≤ j → j < e → u[j]? = s[j]?)
    (hbefore : ∀ q ∈ p.looks, ∀ j, j + 1 = i → u[j]?.any q = s[j]?.any q)
    (hbehind : ∀ q ∈ p.looks, u[e]?.any q = s[e]?.any q) : MatchAt p u i e := by
  obtain ⟨l, m, r, rfl, rfl, rfl, hspans⟩ := h
  have hlong : l.length ≤ u.length := by
    rw [hlen, List.length_append, List.length_append]
    omega
  have htake : (u.drop l.length).take m.length = m := by
    refine List.ext_getElem? fun n => ?_
    rw [List.getElem?_take]
    split
    next hn =>
      rw [List.getElem?_drop, hpiece _ (by omega) (by omega), List.append_assoc,
        List.getElem?_append_right (by omega), Nat.add_sub_cancel_left,
        List.getElem?_append_left hn]
    next hn => rw [List.getElem?_eq_none (Nat.le_of_not_lt hn)]
  -- so the piece stands in the other text too
  have hrest : u.drop l.length = m ++ u.drop (l.length + m.length) := by
    have hsplit := List.take_append_drop m.length (u.drop l.length)
    rw [htake, List.drop_drop] at hsplit
    exact hsplit.symm
  refine ⟨u.take l.length, m, u.drop (l.length + m.length), ?_, ?_, rfl,
    hspans.congr (fun q hq => ?_) fun q hq => ?_⟩
  · rw [List.append_assoc, ← hrest, List.take_append_drop]
  · rw [List.length_take, Nat.min_eq_left hlong]
  · rw [List.head?_reverse, List.head?_reverse, List.getLast?_eq_getElem?,
      List.getLast?_eq_getElem?, List.length_take, Nat.min_eq_left hlong, List.getElem?_take]
    split
    next hn =>
      rw [hbefore q hq _ (by omega), List.append_assoc, List.getElem?_append_left hn]
    next hn => rw [List.getElem?_eq_none (Nat.le_of_not_lt hn)]
  · rw [List.head?_drop, hbehind q hq, ← List.length_append,
      List.getElem?_append_right (Nat.le_refl _), Nat.sub_self, List.head?_eq_getElem?]

/-- **Where two readings take the piece for the same**, a token of the one is one of the other. -/
theorem matchAt_of_agree (hms : Fenced text ms) (hns : Fenced text ns) {i e : Nat}
    (hagree : ∀ p, i ≤ p → p < e → ns[p]? = ms[p]?)
    (h : MatchAt (k.pattern uni) (paint blankChar ms text) i e) :
    MatchAt (k.pattern uni) (paint blankChar ns text) i e := by
  have hsame {j : Nat} (hi : i ≤ j) (he : j < e) :
      (paint blankChar ns text)[j]? = (paint blankChar ms text)[j]? := by
    rw [paint, paint, List.getElem?_zipWith, List.getElem?_zipWith, hagree j hi he]
  have hlen : (paint blankChar ns text).length = (paint blankChar ms text).length := by
    rw [paint, paint, List.length_zipWith, List.length_zipWith, hms.length_eq, hns.length_eq]
  obtain ⟨l, m, r, htext, rfl, rfl, hspans⟩ := h
  obtain ⟨m₁, hm₁, -⟩ := Forbidden.shape hspans
  obtain ⟨m₂, c, hm₂, hc⟩ := Forbidden.last hspans
  have hpos : 0 < m.length := by
    rw [hm₁]
    exact Nat.succ_pos _
  have hend : l.length + m.length = l.length + m₂.length + 1 := by
    rw [hm₂, List.length_append, List.length_singleton, Nat.add_assoc]
  -- neither the first character nor the last one is a space, so neither is marked
  obtain ⟨hfirst, hbegins⟩ :
      ms[l.length]? = some false ∧ text[l.length]? = some k.begins.1 := by
    refine unmarked_of_not_space ?_ k.isSpace_begins
    rw [htext, List.append_assoc, List.getElem?_append_right (Nat.le_refl _), Nat.sub_self, hm₁]
    rfl
  obtain ⟨hlast, -⟩ : ms[l.length + m₂.length]? = some false ∧
      text[l.length + m₂.length]? = some c := by
    refine unmarked_of_not_space ?_ hc
    rw [htext, List.append_assoc, List.getElem?_append_right (Nat.le_add_right _ _),
      Nat.add_sub_cancel_left, hm₂, List.append_assoc,
      List.getElem?_append_right (Nat.le_refl _), Nat.sub_self]
    rfl
  have hfirst' := (hagree _ (Nat.le_refl _) (by omega)).trans hfirst
  have hlast' := (hagree (l.length + m₂.length) (by omega) (by omega)).trans hlast
  have hline : text[l.length]? ≠ some '\n' := by
    rw [hbegins]
    intro h
    have hspace := k.isSpace_begins
    rw [Option.some.inj h] at hspace
    cases hspace
  -- what stands next to the piece may differ, but not in what a pattern looks for
  refine MatchAt.congr ⟨l, m, r, htext, rfl, rfl, hspans⟩ hlen (fun j hi he => hsame hi he)
    (fun q hq j hj => ?_) fun q hq => ?_
  · rw [← hj] at hfirst hfirst' hline
    exact any_before hms hns hfirst hfirst' hline hq
  · rw [hend]
    exact any_behind hms hns hlast hlast' hq

/-- Where the readings agree, a token in code is one that the script reads. -/
theorem Agree.matchAt_iff {i e : Nat} (h : Agree text i e) :
    MatchAt (k.pattern uni) (codeOf text) i e ↔ MatchAt (k.pattern uni) (seenOf text) i e :=
  ⟨matchAt_of_agree (fenced_comments text) (fenced_hidden text) h,
    matchAt_of_agree (fenced_hidden text) (fenced_comments text) fun p hi he => (h p hi he).symm⟩

/-! ## Reports -/

/-- **What the script reports** is what it reads. -/
theorem reports_iff {path : String} : Reports uni text k line path ↔
    ∃ i e, MatchAt (k.pattern uni) (seenOf text) i e ∧ lineAt text i = line := by
  have hline (x r : List Char) (h : stripComments text = x ++ r) :
      x.count '\n' + 1 = lineAt text x.length := by
    rw [← lineAt_paint (fenced_hidden text).length_eq, ← stripComments_eq, h, lineAt,
      List.take_left]
  constructor
  · rintro ⟨f, hf, rfl, hwhy⟩
    obtain ⟨k', -, hf⟩ := List.mem_flatMap.mp hf
    obtain ⟨hit, hhit, rfl⟩ := List.mem_map.mp hf
    -- the reason tells which of the patterns it was
    obtain rfl := Forbidden.why_injective hwhy
    obtain ⟨x, m, htext, hleft, -, hspans⟩ := spans_of_mem_hits hhit
    rw [List.append_nil] at hleft
    rw [hleft] at hspans
    refine ⟨x.length, x.length + m.length, ⟨x, m, _, ?_, rfl, rfl, hspans⟩, ?_⟩
    · rw [seenOf, ← stripComments_eq, htext]
    · dsimp only
      rw [hleft, List.count_reverse, hline x (m ++ hit.stop.right)]
      rw [htext, List.append_assoc]
  · rintro ⟨i, e, ⟨l, m, r, htext, rfl, rfl, hspans⟩, rfl⟩
    rw [seenOf, ← stripComments_eq] at htext
    rw [← List.append_nil l.reverse] at hspans
    -- a later token of the kind is found too, since none begins inside another
    obtain ⟨hit, hhit, hleft⟩ := exists_mem_hits k.solid k.apart (Nat.zero_le l.length) hspans
    rw [← htext] at hhit
    refine ⟨_, List.mem_flatMap.mpr ⟨k, k.mem_all, List.mem_map.mpr ⟨hit, hhit, rfl⟩⟩, ?_, rfl⟩
    dsimp only
    rw [hleft, List.append_nil, List.count_reverse, hline l (m ++ r)]
    rw [htext, List.append_assoc]

/-- What stands in code is in plain view or missed. -/
theorem inCode_iff : InCode uni text k line ↔ InView uni text k line ∨ Missed uni text k line := by
  constructor
  · rintro ⟨i, e, hm, hline⟩
    by_cases hagree : Agree text i e
    · exact .inl ⟨i, e, hm, hagree, hline⟩
    · exact .inr ⟨i, e, hm, hagree, hline⟩
  · rintro (⟨i, e, hm, -, hline⟩ | ⟨i, e, hm, -, hline⟩)
    · exact ⟨i, e, hm, hline⟩
    · exact ⟨i, e, hm, hline⟩

/-- What is reported is in plain view or a phantom. -/
theorem reports_iff_inView {path : String} : Reports uni text k line path
    ↔ InView uni text k line ∨ Phantom uni text k line := by
  rw [reports_iff]
  constructor
  · rintro ⟨i, e, hm, hline⟩
    by_cases hagree : Agree text i e
    · exact .inl ⟨i, e, hagree.matchAt_iff.mpr hm, hagree, hline⟩
    · exact .inr ⟨i, e, hm, hagree, hline⟩
  · rintro (⟨i, e, hm, hagree, hline⟩ | ⟨i, e, hm, -, hline⟩)
    · exact ⟨i, e, hagree.matchAt_iff.mp hm, hline⟩
    · exact ⟨i, e, hm, hline⟩

/-- **No reading makes a difference** where both take every token for the same. -/
theorem sameTokens_of_allInView (h : AllInView uni text) : SameTokens uni text := by
  intro k line _
  constructor
  · rintro ⟨i, e, hm, hno, -⟩
    exact absurd (h k i e (.inl hm)) hno
  · rintro ⟨i, e, hm, hno, -⟩
    exact absurd (h k i e (.inr hm)) hno

/-- **The gate is exact on a text** if and only if its reading makes no difference there: it then
reports a token on a line exactly when the token stands on it outside the comments. It is wherever
every token is in plain view. -/
theorem gate_exact_iff (uni : Char → Bool) (path : String) (text : List Char) :
    ((∀ k line, Reports uni text k line path ↔ InCode uni text k line) ↔ SameTokens uni text) ∧
      (AllInView uni text → SameTokens uni text) := by
  refine ⟨?_, sameTokens_of_allInView⟩
  refine forall_congr' fun k => forall_congr' fun line => ?_
  rw [inCode_iff, reports_iff_inView]
  constructor
  · intro h hview
    rw [or_iff_right hview, or_iff_right hview] at h
    exact h.symm
  · intro h
    -- a token in plain view is reported and stands in code
    by_cases hview : InView uni text k line
    · exact ⟨fun _ => .inl hview, fun _ => .inl hview⟩
    · rw [or_iff_right hview, or_iff_right hview]
      exact (h hview).symm

/-- A line on which the port is opened behind a `;`. -/
def opensPort : List Char := "f(); NRF_APPROTECT->DISABLE = 1;".toList

/-- **Behind a `;` the port can be opened**: the peripheral stands in code, and is not reported. -/
theorem write_behind_semicolon : ¬ ∀ k line,
    Reports (fun _ => false) opensPort k line "src/main.cpp"
      ↔ InCode (fun _ => false) opensPort k line := by
  intro h
  have hcode : InCode (fun _ => false) opensPort .peripheral 1 := by
    refine ⟨5, 18, ⟨"f(); ".toList, "NRF_APPROTECT".toList, "->DISABLE = 1;".toList, ?_, rfl, rfl,
      [], _, rfl, ⟨rfl, by decide⟩, _, [], rfl, spans_lit.mpr rfl, rfl, by decide⟩, ?_⟩
    · decide +kernel
    · decide
  have hnone : scanText (fun _ => false) "src/main.cpp" opensPort = [] := by decide +kernel
  obtain ⟨f, hf, -⟩ := (h .peripheral 1).mpr hcode
  rw [hnone] at hf
  cases hf

end Thicket.Scripts
