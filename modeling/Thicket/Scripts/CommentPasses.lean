import Thicket.Scripts.Approtect

/-! # The two passes

What `strip_comments` blanks, as a property of the text: the pairs of `/*` and `*/`, found from the
left and blind to `//`, and then what stands behind a `//` or a `;` on its line. -/

namespace Thicket.Scripts

open Thicket.Regex Thicket.Regex.Pattern

/-- Marks for the characters of a text, made from left to right. -/
def marks {σ : Type} (next : σ → Char → List Char → Bool × σ) : σ → List Char → List Bool
  | _, [] => []
  | s, c :: r => (next s c r).1 :: marks next (next s c r).2 r

/-- A mark for each character. -/
theorem length_marks {σ : Type} (next : σ → Char → List Char → Bool × σ) (s : σ)
    (text : List Char) : (marks next s text).length = text.length := by
  induction text generalizing s with
  | nil => rfl
  | cons c r ih => rw [marks, List.length_cons, List.length_cons, ih]

/-! ## Pairs -/

/-- What is behind the first `*/`. -/
def afterClose : List Char → Option (List Char)
  | [] => none
  | c :: r => if c = '*' ∧ r.head? = some '/' then some r.tail else afterClose r

/-- A `/*` is here, and it is closed. -/
def opensPair (text : List Char) : Bool :=
  "/*".toList.isPrefixOf text && (afterClose (text.drop 2)).isSome

/-- Where a scan for pairs is. -/
inductive PairState where
  /-- Outside. -/
  | outside
  /-- In front of the `*` that opens. -/
  | star
  /-- Inside. -/
  | inside
  /-- In front of the `/` that closes. -/
  | slash
  deriving DecidableEq

/-- One character of a scan for pairs. -/
def pairNext : PairState → Char → List Char → Bool × PairState
  | .outside, c, r => if opensPair (c :: r) then (true, .star) else (false, .outside)
  | .star, _, _ => (true, .inside)
  | .inside, c, r => if c = '*' ∧ r.head? = some '/' then (true, .slash) else (true, .inside)
  | .slash, c, _ => if c = '/' then (true, .outside) else (true, .slash)

/-- **The characters of the pairs.** -/
def paired (text : List Char) : List Bool := marks pairNext .outside text

/-! ## Lines -/

/-- One character of a scan for `//` and `;`, from which on the rest of a line is marked. -/
def tailNext : Bool → Char → List Char → Bool × Bool
  | false, c, r => if c = ';' ∨ (c = '/' ∧ r.head? = some '/') then (true, true) else (false, false)
  | true, c, _ => if notNewline c then (true, true) else (false, false)

/-- **The characters behind a `//` or a `;`** on their line. -/
def tails (text : List Char) : List Bool := marks tailNext false text

/-- **What the script takes for a comment.** -/
def hidden (text : List Char) : List Bool :=
  List.zipWith or (paired text) (tails (paint blankChar (paired text) text))

/-! ## The first pass -/

/-- When a `*/` is here. -/
theorem prefix_close_iff {c : Char} {r : List Char} :
    "*/".toList <+: c :: r ↔ c = '*' ∧ r.head? = some '/' := by
  constructor
  · rintro ⟨q, hq⟩
    obtain ⟨rfl, rfl⟩ := List.cons.inj hq
    exact ⟨rfl, rfl⟩
  · rintro ⟨rfl, hr⟩
    obtain ⟨q, rfl⟩ := List.head?_eq_some_iff.mp hr
    exact ⟨q, rfl⟩

/-- **The shortest piece in front of a `*/`** is what comes first. -/
theorem head?_few_close (l r : List Char) (groups : List (Nat × List Char)) :
    ((Pattern.seq (.few fun _ => true) (.lit "*/".toList)).ends ⟨l, r, groups⟩).head?.map
      Cursor.right = afterClose r := by
  -- the lazy run tries the nearest place first, and only behind one where `*/` is does it go on
  rw [ends, ends]
  induction r generalizing l with
  | nil => rfl
  | cons c r ih =>
    rw [runs, if_pos rfl, List.flatMap_cons, afterClose]
    by_cases hc : c = '*' ∧ r.head? = some '/'
    · obtain ⟨q, hq⟩ := prefix_close_iff.mpr hc
      rw [if_pos hc, ← hq, ends_lit]
      obtain ⟨-, rfl⟩ := List.cons.inj hq
      rfl
    · -- no `*/` here: the run takes one character more
      rw [if_neg hc, ends_lit_eq_nil (mt prefix_close_iff.mp hc), List.nil_append]
      exact ih (c :: l)

/-- What `/* .. */` matches. -/
theorem first_block (l r : List Char) : (blockPattern.first l r).map Cursor.right
    = if "/*".toList <+: r then afterClose (r.drop 2) else none := by
  split
  next h =>
    obtain ⟨q, rfl⟩ := h
    rw [first, blockPattern, ends, ends_lit, List.flatMap_singleton, head?_few_close]
    rfl
  next h => rw [first, blockPattern, ends, ends_lit_eq_nil h, List.flatMap_nil]; rfl

/-- Inside a pair everything is marked, up to where it is closed. -/
theorem marks_inside {r q : List Char} (h : afterClose r = some q) : ∃ m, r = m ++ q ∧
    marks pairNext .inside r = List.replicate m.length true ++ marks pairNext .outside q := by
  induction r with
  | nil => cases h
  | cons c r ih =>
    rw [afterClose] at h
    rw [marks, pairNext]
    split at h
    next hc =>
      obtain ⟨rest, rfl⟩ := List.head?_eq_some_iff.mp hc.2
      obtain rfl : rest = q := Option.some.inj h
      refine ⟨[c, '/'], rfl, ?_⟩
      rw [if_pos hc]
      rfl
    next hc =>
      obtain ⟨m, rfl, hm⟩ := ih h
      refine ⟨c :: m, rfl, ?_⟩
      rw [if_neg hc, hm]
      rfl

/-- When a pair begins. -/
theorem opensPair_iff {c : Char} {r : List Char} : opensPair (c :: r) = true ↔
    c = '/' ∧ ∃ rest q, r = '*' :: rest ∧ afterClose rest = some q := by
  rw [opensPair, Bool.and_eq_true, List.isPrefixOf_iff_prefix, Option.isSome_iff_exists]
  constructor
  · rintro ⟨⟨rest, hrest⟩, q, hq⟩
    obtain ⟨hc, hr⟩ : '/' = c ∧ '*' :: rest = r := List.cons.inj hrest
    subst hc hr
    exact ⟨rfl, rest, q, rfl, hq⟩
  · rintro ⟨rfl, rest, q, rfl, hq⟩
    exact ⟨⟨rest, rfl⟩, q, hq⟩

/-- There is no match where no pair begins. -/
theorem first_block_eq_none {l : List Char} {c : Char} {r : List Char}
    (h : opensPair (c :: r) = false) : blockPattern.first l (c :: r) = none := by
  have hfirst := first_block l (c :: r)
  -- either there is no `/*`, or nothing closes it
  rw [opensPair, Bool.and_eq_false_iff] at h
  split at hfirst
  next hpre =>
    obtain h | h := h
    · exact absurd (List.isPrefixOf_iff_prefix.mpr hpre) (Bool.eq_false_iff.mp h)
    · rw [Option.isSome_eq_false_iff, Option.isNone_iff_eq_none] at h
      rw [h] at hfirst
      exact Option.map_eq_none_iff.mp hfirst
  next => exact Option.map_eq_none_iff.mp hfirst

/-- **The first pass covers the pairs.** -/
theorem covered_block (l r : List Char) : blockPattern.covered l 0 r = paired r := by
  -- a match takes several characters at once, so the induction is on the length
  induction hn : r.length using Nat.strongRecOn generalizing l r with
  | ind n ih =>
    cases r with
    | nil => rfl
    | cons c r =>
      by_cases hopen : opensPair (c :: r) = true
      · obtain ⟨rfl, rest, q, rfl, hq⟩ := opensPair_iff.mp hopen
        obtain ⟨m, rfl, hmarks⟩ := marks_inside hq
        have hfirst := first_block l ('/' :: '*' :: (m ++ q))
        have hdrop : ('/' :: '*' :: (m ++ q)).drop 2 = m ++ q := rfl
        rw [if_pos ⟨m ++ q, rfl⟩, hdrop, hq] at hfirst
        obtain ⟨e, he, hright⟩ := Option.map_eq_some_iff.mp hfirst
        have hk : ('*' :: (m ++ q)).length - e.right.length = ('*' :: m).length := by
          rw [hright, List.length_cons, List.length_append, List.length_cons]
          omega
        have hshort : q.length < n := by
          rw [← hn]
          simp only [List.length_cons, List.length_append]
          omega
        have hpaired : paired ('/' :: '*' :: (m ++ q))
            = true :: true :: (List.replicate m.length true ++ paired q) := by
          rw [paired, marks, pairNext, if_pos hopen]
          show true :: true :: marks pairNext .inside (m ++ q) = _
          rw [hmarks, paired]
        -- both mark the pair, and go on behind it
        rw [covered, he, hpaired]
        dsimp only
        rw [hk, ← List.cons_append, covered_append, ih q.length hshort _ _ rfl]
        rfl
      · have hshort : r.length < n := by rw [← hn, List.length_cons]; omega
        have hnone : opensPair (c :: r) = false := Bool.eq_false_iff.mpr hopen
        rw [covered, first_block_eq_none hnone]
        dsimp only
        rw [ih r.length hshort _ _ rfl, paired, paired, marks, pairNext, if_neg hopen]

/-! ## The second pass -/

/-- A class behind a text that is here. -/
theorem head?_lit_many {w l r : List Char} (p : Char → Bool) :
    ((Pattern.seq (.lit w) (.many p)).ends ⟨l, w ++ r, []⟩).head?.map Cursor.right
      = some (r.dropWhile p) := by
  rw [ends, ends_lit, List.flatMap_singleton]
  exact head?_ends_many p ⟨w.reverse ++ l, r, []⟩

/-- What `//..|;..` matches. -/
theorem first_line {l : List Char} {c : Char} {r : List Char} :
    (linePattern.first l (c :: r)).map Cursor.right
      = if c = ';' ∨ (c = '/' ∧ r.head? = some '/') then some (r.dropWhile notNewline)
        else none := by
  have hends : linePattern.ends ⟨l, c :: r, []⟩
      = (Pattern.seq (.lit "//".toList) (.many notNewline)).ends ⟨l, c :: r, []⟩
        ++ (Pattern.seq (.lit ";".toList) (.many notNewline)).ends ⟨l, c :: r, []⟩ := rfl
  have hslash : ¬ (c = '/' ∧ r.head? = some '/') →
      (Pattern.seq (.lit "//".toList) (.many notNewline)).ends ⟨l, c :: r, []⟩ = [] := by
    intro h
    rw [ends, ends_lit_eq_nil, List.flatMap_nil]
    rintro ⟨q, hq⟩
    obtain ⟨hc, hr⟩ : '/' = c ∧ '/' :: q = r := List.cons.inj hq
    exact h ⟨hc.symm, by rw [← hr]; rfl⟩
  have hsemi : c ≠ ';' →
      (Pattern.seq (.lit ";".toList) (.many notNewline)).ends ⟨l, c :: r, []⟩ = [] := by
    intro h
    rw [ends, ends_lit_eq_nil, List.flatMap_nil]
    rintro ⟨q, hq⟩
    exact h (List.cons.inj hq).1.symm
  -- `//` is tried first; a line cannot begin with both
  rw [first, hends]
  by_cases hs : c = '/' ∧ r.head? = some '/'
  · obtain ⟨rfl, hr⟩ := hs
    obtain ⟨q, rfl⟩ := List.head?_eq_some_iff.mp hr
    have hmany := head?_lit_many (w := "//".toList) (l := l) (r := q) notNewline
    rw [if_pos (.inr ⟨rfl, rfl⟩), hsemi (by decide), List.append_nil]
    exact hmany
  · rw [hslash hs, List.nil_append]
    by_cases hc : c = ';'
    · subst hc
      rw [if_pos (.inl rfl)]
      exact head?_lit_many (w := ";".toList) notNewline
    · rw [hsemi hc, if_neg (not_or.mpr ⟨hc, hs⟩)]
      rfl

/-- Behind a `//` or a `;` everything is marked, up to the end of the line. -/
theorem marks_tail (r : List Char) : marks tailNext true r
    = List.replicate (r.takeWhile notNewline).length true ++ tails (r.dropWhile notNewline) := by
  induction r with
  | nil => rfl
  | cons c r ih =>
    rw [marks, tailNext]
    by_cases hc : notNewline c = true
    · rw [if_pos hc, List.takeWhile_cons_of_pos hc, List.dropWhile_cons_of_pos hc, ih,
        List.length_cons, List.replicate_succ, List.cons_append]
    · rw [if_neg hc, List.takeWhile_cons_of_neg hc, List.dropWhile_cons_of_neg hc]
      obtain rfl : c = '\n' := by simpa [notNewline] using hc
      rfl

/-- **The second pass covers the tails.** -/
theorem covered_line (l r : List Char) : linePattern.covered l 0 r = tails r := by
  induction hn : r.length using Nat.strongRecOn generalizing l r with
  | ind n ih =>
    cases r with
    | nil => rfl
    | cons c r =>
      have hfirst := first_line (l := l) (c := c) (r := r)
      -- the tail is one match, and as many marks
      rw [covered, tails, marks, tailNext]
      by_cases hc : c = ';' ∨ (c = '/' ∧ r.head? = some '/')
      · rw [if_pos hc] at hfirst ⊢
        obtain ⟨e, he, hright⟩ := Option.map_eq_some_iff.mp hfirst
        have hsplit := List.takeWhile_append_dropWhile (p := notNewline) (l := r)
        have hlen := congrArg List.length hsplit
        rw [List.length_append] at hlen
        rw [List.length_cons] at hn
        have hk : r.length - e.right.length = (r.takeWhile notNewline).length := by
          rw [hright]
          omega
        have hcovered := covered_append linePattern (c :: l) (r.takeWhile notNewline)
          (r.dropWhile notNewline)
        rw [hsplit, ih _ (by omega) _ _ rfl] at hcovered
        rw [he]
        dsimp only
        rw [hk, hcovered, marks_tail]
      · rw [if_neg hc] at hfirst ⊢
        rw [Option.map_eq_none_iff.mp hfirst]
        dsimp only
        rw [ih r.length (by rw [← hn, List.length_cons]; omega) _ _ rfl, tails]

/-! ## Both -/

/-- A block is not empty. -/
theorem solid_block : blockPattern.Solid := by
  rintro l m r ⟨m₁, m₂, rfl, hopen, -⟩ hnil
  rw [spans_lit.mp hopen] at hnil
  cases hnil

/-- Nor is a tail. -/
theorem solid_line : linePattern.Solid := by
  rintro l m r (⟨m₁, m₂, rfl, hopen, -⟩ | ⟨m₁, m₂, rfl, hopen, -⟩) hnil
  · rw [spans_lit.mp hopen] at hnil
    cases hnil
  · rw [spans_lit.mp hopen] at hnil
    cases hnil

/-- What is blank stays blank. -/
theorem blankChar_blankChar (c : Char) : blankChar (blankChar c) = blankChar c := by
  unfold blankChar
  cases hc : notNewline c with
  | false => simp [hc]
  | true => rfl

/-- **`strip_comments` blanks what is hidden**, and nothing else. -/
theorem stripComments_eq (text : List Char) :
    stripComments text = paint blankChar (hidden text) text := by
  have hblock := sub_map solid_block blankChar [] (Nat.zero_le text.length)
  have hline := sub_map solid_line blankChar []
    (Nat.zero_le (paint blankChar (paired text) text).length)
  rw [List.take_zero, List.map_nil, List.nil_append, covered_block] at hblock
  rw [List.take_zero, List.map_nil, List.nil_append, covered_line] at hline
  -- blanking twice is blanking what either pass covers
  rw [hidden, ← paint_paint blankChar_blankChar, ← hline, ← hblock]
  rfl

end Thicket.Scripts
