import Thicket.Scripts.CommentPasses

/-! # Comments in C

The comments that a C compiler finds, beside those that the script takes for some. Both begin with
a `/` or a `;` and end with a `/` or at the end of a line, so neither cuts a word. -/

namespace Thicket.Scripts

open Thicket.Regex Thicket.Regex.Pattern

/-- Without the spliced lines at the front. -/
def past : List Char → List Char
  | c :: d :: r => if c = '\\' ∧ d = '\n' then past r else c :: d :: r
  | r => r

/-- Where a C lexer is, as far as comments go. -/
inductive Lex where
  /-- In code. -/
  | code
  /-- In a `//` comment. -/
  | line
  /-- In front of the newline of a spliced line of it. -/
  | splice
  /-- In front of the `*` that opens. -/
  | star
  /-- In a `/* */` comment. -/
  | block
  /-- In front of the `/` that closes. -/
  | slash
  deriving DecidableEq

/-- One character of a C text. Lines are spliced before comments are looked for, and a text in
which no literal holds a comment marker needs no more than this. -/
def lexNext : Lex → Char → List Char → Bool × Lex
  | .code, c, r =>
      -- the spliced lines between the two characters of a marker are part of it
      if c = '/' ∧ (past r).head? = some '/' then (true, .line)
      else if c = '/' ∧ (past r).head? = some '*' then (true, .star)
      else (false, .code)
  | .line, c, r =>
      if c = '\n' then (false, .code)
      else if c = '\\' ∧ r.head? = some '\n' then (true, .splice)
      else (true, .line)
  -- this newline does not end the comment
  | .splice, _, _ => (true, .line)
  | .star, c, _ => if c = '*' then (true, .block) else (true, .star)
  | .block, c, r =>
      if c = '*' ∧ (past r).head? = some '/' then (true, .slash) else (true, .block)
  | .slash, c, _ => if c = '/' then (true, .code) else (true, .slash)

/-- **The characters of the comments.** -/
def comments (text : List Char) : List Bool := marks lexNext .code text

/-- Every character belongs to a comment or not. -/
theorem length_comments (text : List Char) : (comments text).length = text.length :=
  length_marks lexNext .code text

/-! ## Where marks begin and end -/

/-- **Marks with fences**: a marked part begins with a `/` or a `;`, and ends with a `/` unless the
line ends. -/
structure Fenced (text : List Char) (ms : List Bool) : Prop where
  /-- A mark for each character. -/
  length_eq : ms.length = text.length
  /-- The first character of a part. -/
  opens : ∀ p c, ms[p]? = some false → ms[p + 1]? = some true → text[p + 1]? = some c →
    c = '/' ∨ c = ';'
  /-- The last character of a part. -/
  closes : ∀ p, ms[p]? = some true → ms[p + 1]? = some false → text[p + 1]? ≠ some '\n' →
    text[p]? = some '/'

/-- Where marks begin, if only some states can begin to mark. -/
theorem opens_marks {σ : Type} {next : σ → Char → List Char → Bool × σ} {quiet : σ → Prop}
    {good : Char → Prop} (hquiet : ∀ s c r, (next s c r).1 = false → quiet (next s c r).2)
    (hopen : ∀ s c r, quiet s → (next s c r).1 = true → good c) {text : List Char} {s : σ} {p : Nat}
    {c : Char} (hp : (marks next s text)[p]? = some false)
    (hp' : (marks next s text)[p + 1]? = some true) (hc : text[p + 1]? = some c) : good c := by
  induction text generalizing s p with
  | nil => cases hc
  | cons a text ih =>
    cases p with
    | succ p => exact ih hp hp' hc
    -- the two marks are those of the first two characters
    | zero =>
      cases text with
      | nil => cases hc
      | cons b text =>
        obtain rfl : b = c := Option.some.inj hc
        exact hopen _ b text (hquiet s a _ (Option.some.inj hp)) (Option.some.inj hp')

/-- Where marks end. -/
theorem closes_marks {σ : Type} {next : σ → Char → List Char → Bool × σ} {good : Char → Prop}
    (hclose : ∀ s c d r, (next s c (d :: r)).1 = true →
      (next (next s c (d :: r)).2 d r).1 = false → d ≠ '\n' → good c) {text : List Char} {s : σ}
    {p : Nat} (hp : (marks next s text)[p]? = some true)
    (hp' : (marks next s text)[p + 1]? = some false) (hd : text[p + 1]? ≠ some '\n') :
    ∃ c, text[p]? = some c ∧ good c := by
  induction text generalizing s p with
  | nil => cases hp
  | cons a text ih =>
    cases p with
    | succ p => exact ih hp hp' hd
    | zero =>
      cases text with
      | nil => cases hp'
      | cons b text =>
        refine ⟨a, rfl, hclose s a b text (Option.some.inj hp) (Option.some.inj hp') ?_⟩
        rintro rfl
        exact hd rfl

/-- What is not marked is code, or the newline behind a `//` comment. -/
theorem lexNext_unmarked {s : Lex} {c : Char} {r : List Char} (h : (lexNext s c r).1 = false) :
    (lexNext s c r).2 = .code ∧ (s = .code ∨ s = .line ∧ c = '\n') := by
  revert h
  cases s with
  | code | line => rw [lexNext]; split_ifs <;> simp_all
  | splice => exact fun h => nomatch h
  | star | block | slash => rw [lexNext]; split_ifs <;> exact fun h => nomatch h

/-- A comment that ends here ends with a `/`. -/
theorem lexNext_code {s : Lex} {c : Char} {r : List Char} (h : (lexNext s c r).1 = true)
    (hcode : (lexNext s c r).2 = .code) : c = '/' := by
  revert h hcode
  cases s with
  | code | line | star | block | slash => rw [lexNext]; split_ifs <;> simp_all
  | splice => exact fun _ h => nomatch h

/-- **Comments are fenced.** -/
theorem fenced_comments (text : List Char) : Fenced text (comments text) where
  length_eq := length_comments text
  opens p c hp hp' hc := by
    have hopen : ∀ s c r, s = Lex.code → (lexNext s c r).1 = true → c = '/' ∨ c = ';' := by
      rintro s c r rfl h
      rw [lexNext] at h
      split_ifs at h with h₁ h₂
      · exact .inl h₁.1
      · exact .inl h₂.1
    exact opens_marks (fun s c r h => (lexNext_unmarked h).1) hopen hp hp' hc
  closes p hp hp' hd := by
    have hclose : ∀ s c d r, (lexNext s c (d :: r)).1 = true →
        (lexNext (lexNext s c (d :: r)).2 d r).1 = false → d ≠ '\n' → c = '/' := by
      intro s c d r h h' hd
      -- either the comment was closed by this character, or the next one is the newline behind it
      obtain hcode | ⟨-, hline⟩ := (lexNext_unmarked h').2
      · exact lexNext_code h hcode
      · exact absurd hline hd
    obtain ⟨c, hc, rfl⟩ := closes_marks hclose hp hp' hd
    exact hc

/-! ## What the script takes for a comment -/

/-- A mark for each character of the painted text. -/
theorem length_tails (text : List Char) :
    (tails (paint blankChar (paired text) text)).length = text.length := by
  rw [tails, length_marks, paint, List.length_zipWith, paired, length_marks, Nat.min_self]

/-- Pairs are fenced. -/
theorem fenced_paired (text : List Char) : Fenced text (paired text) where
  length_eq := length_marks pairNext .outside text
  opens p c hp hp' hc := by
    have hquiet : ∀ s c r, (pairNext s c r).1 = false → (pairNext s c r).2 = .outside := by
      intro s c r h
      revert h
      cases s with
      | outside | inside | slash => rw [pairNext]; split_ifs <;> simp
      | star =>
        intro h
        cases h
    have hopen : ∀ s c r, s = PairState.outside → (pairNext s c r).1 = true →
        c = '/' ∨ c = ';' := by
      rintro s c r rfl h
      rw [pairNext] at h
      split_ifs at h with hpair
      exact .inl (opensPair_iff.mp hpair).1
    exact opens_marks hquiet hopen hp hp' hc
  closes p hp hp' hd := by
    have hclose : ∀ s c d r, (pairNext s c (d :: r)).1 = true →
        (pairNext (pairNext s c (d :: r)).2 d r).1 = false → d ≠ '\n' → c = '/' := by
      intro s c d r h h' _
      -- from any other state the next character is marked
      have hout : (pairNext s c (d :: r)).2 = .outside := by
        revert h'
        cases (pairNext s c (d :: r)).2 with
        | outside => exact fun _ => rfl
        | star =>
          intro h
          cases h
        | inside | slash => rw [pairNext]; split_ifs <;> simp
      revert h hout
      cases s with
      | outside | inside | slash => rw [pairNext]; split_ifs <;> simp_all
      | star =>
        intro _ h
        cases h
    obtain ⟨c, hc, rfl⟩ := closes_marks hclose hp hp' hd
    exact hc

/-- A tail begins with a `/` or a `;`. -/
theorem tails_opens {text : List Char} {p : Nat} {c : Char} (hp : (tails text)[p]? = some false)
    (hp' : (tails text)[p + 1]? = some true) (hc : text[p + 1]? = some c) : c = '/' ∨ c = ';' := by
  have hquiet : ∀ s c r, (tailNext s c r).1 = false → (tailNext s c r).2 = false := by
    intro s c r
    cases s with
    | false | true => rw [tailNext]; split_ifs <;> simp
  have hopen : ∀ s c r, s = false → (tailNext s c r).1 = true → c = '/' ∨ c = ';' := by
    rintro s c r rfl h
    rw [tailNext] at h
    split_ifs at h with hc
    obtain hc | hc := hc
    · exact .inr hc
    · exact .inl hc.1
  exact opens_marks hquiet hopen hp hp' hc

/-- It ends where the line ends. -/
theorem tails_closes {text : List Char} {p : Nat} (hp : (tails text)[p]? = some true)
    (hp' : (tails text)[p + 1]? = some false) : text[p + 1]? = some '\n' := by
  by_contra hd
  have hclose : ∀ s c d r, (tailNext s c (d :: r)).1 = true →
      (tailNext (tailNext s c (d :: r)).2 d r).1 = false → d ≠ '\n' → False := by
    intro s c d r h h' hd
    have hmark : (tailNext s c (d :: r)).2 = true := by
      revert h
      cases s with
      | false | true => rw [tailNext]; split_ifs <;> simp
    rw [hmark, tailNext, if_pos (show notNewline d = true from bne_iff_ne.mpr hd)] at h'
    cases h'
  obtain ⟨-, -, h⟩ := closes_marks hclose hp hp' hd
  exact h

/-- A character of a painted text. -/
theorem getElem?_paint {ms : List Bool} {text : List Char} {p : Nat} {c : Char} :
    (paint blankChar ms text)[p]? = some c ↔
      ∃ b d, ms[p]? = some b ∧ text[p]? = some d ∧ (if b then blankChar d else d) = c :=
  List.getElem?_zipWith_eq_some

/-- A newline of a painted text is one of the text. -/
theorem eq_newline_of_painted {b : Bool} {d : Char} (h : (if b then blankChar d else d) = '\n') :
    d = '\n' := by
  revert h
  cases b with
  | false => exact id
  | true =>
    unfold blankChar
    by_cases hd : notNewline d = true
    · rw [if_pos rfl, if_pos hd]
      exact fun h => absurd h (by decide)
    · rw [if_pos rfl, if_neg hd]
      exact id

/-- When a character is hidden. -/
theorem getElem?_hidden {text : List Char} {p : Nat} {h : Bool} : (hidden text)[p]? = some h ↔
    ∃ a b, (paired text)[p]? = some a ∧
      (tails (paint blankChar (paired text) text))[p]? = some b ∧ (a || b) = h :=
  List.getElem?_zipWith_eq_some

/-- **What is hidden is fenced.** -/
theorem fenced_hidden (text : List Char) : Fenced text (hidden text) where
  length_eq := by
    rw [hidden, List.length_zipWith, length_tails, (fenced_paired text).length_eq, Nat.min_self]
  opens p c hp hp' hc := by
    obtain ⟨a, b, ha, hb, hab⟩ := getElem?_hidden.mp hp
    obtain ⟨a', b', ha', hb', hab'⟩ := getElem?_hidden.mp hp'
    obtain ⟨rfl, rfl⟩ := Bool.or_eq_false_iff.mp hab
    -- the second character is in a pair, or else in a tail
    cases a' with
    | true => exact (fenced_paired text).opens p c ha ha' hc
    | false =>
      rw [Bool.false_or] at hab'
      subst hab'
      exact tails_opens hb hb' (getElem?_paint.mpr ⟨false, c, ha', hc, rfl⟩)
  closes p hp hp' hd := by
    obtain ⟨a, b, ha, hb, hab⟩ := getElem?_hidden.mp hp
    obtain ⟨a', b', ha', hb', hab'⟩ := getElem?_hidden.mp hp'
    obtain ⟨rfl, rfl⟩ := Bool.or_eq_false_iff.mp hab'
    -- the first is in a tail, which only a newline ends, or else in a pair
    cases b with
    | true =>
      obtain ⟨c, d, -, htext, hpaint⟩ := getElem?_paint.mp (tails_closes hb hb')
      rw [eq_newline_of_painted hpaint] at htext
      exact absurd htext hd
    | false =>
      rw [Bool.or_false] at hab
      subst hab
      exact (fenced_paired text).closes p ha ha' hd

end Thicket.Scripts
