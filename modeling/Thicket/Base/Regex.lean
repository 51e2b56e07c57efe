import Mathlib.Data.List.Basic

/-! # Backtracking patterns

A pattern goes from a place in a text to the places behind what it matches, in the order in which a
backtracking matcher tries them; the first is the match. `Spans` says what a match is without an
order: the matcher finds a place behind a piece of text exactly when the pattern spans the piece. -/

namespace Thicket.Regex

variable {α : Type*}

/-- A place in a text. -/
structure Cursor (α : Type*) where
  /-- What lies in front of it, the nearest first. -/
  left : List α
  /-- What lies behind it. -/
  right : List α
  /-- What the groups have captured, the last first. -/
  groups : List (Nat × List α)

/-- A pattern. -/
inductive Pattern (α : Type*) where
  /-- The empty text. -/
  | nothing
  /-- One character of a class. -/
  | one (p : α → Bool)
  /-- As many of a class as there are: `[..]*`. -/
  | many (p : α → Bool)
  /-- As few of a class as it takes: `[..]*?`. -/
  | few (p : α → Bool)
  /-- A word begins or ends: `\b`. -/
  | edge (word : α → Bool)
  /-- No character of a class comes next: `(?![..])`. -/
  | notAhead (p : α → Bool)
  /-- One behind the other. -/
  | seq (a b : Pattern α)
  /-- The one, or else the other. -/
  | alt (a b : Pattern α)
  /-- With it, or else without: `(..)?`. -/
  | opt (a : Pattern α)
  /-- A group that captures. -/
  | group (n : Nat) (a : Pattern α)

namespace Pattern

/-- A text, character by character. -/
def lit [BEq α] : List α → Pattern α
  | [] => .nothing
  | a :: w => .seq (.one (· == a)) (lit w)

/-- One of a class or more: `[..]+`. -/
def plus (p : α → Bool) : Pattern α := .seq (.one p) (.many p)

/-! ## The matcher -/

/-- The places in a run of a class, the nearest first. -/
def runs (p : α → Bool) (groups : List (Nat × List α)) : List α → List α → List (Cursor α)
  | l, [] => [⟨l, [], groups⟩]
  | l, a :: r => ⟨l, a :: r, groups⟩ :: if p a then runs p groups (a :: l) r else []

/-- **The places behind a match**, in the order in which they are tried. -/
def ends : Pattern α → Cursor α → List (Cursor α)
  | .nothing, c => [c]
  | .one p, ⟨l, r, groups⟩ =>
      match r with
      | [] => []
      | a :: r => if p a then [⟨a :: l, r, groups⟩] else []
  | .many p, c => (runs p c.groups c.left c.right).reverse
  | .few p, c => runs p c.groups c.left c.right
  | .edge word, c => if c.left.head?.any word != c.right.head?.any word then [c] else []
  | .notAhead p, c => if c.right.head?.any p then [] else [c]
  | .seq a b, c => (a.ends c).flatMap b.ends
  | .alt a b, c => a.ends c ++ b.ends c
  | .opt a, c => a.ends c ++ [c]
  | .group n a, c => (a.ends c).map fun e =>
      { e with groups := (n, c.right.take (c.right.length - e.right.length)) :: e.groups }

/-- The match at a place. -/
def first (p : Pattern α) (l r : List α) : Option (Cursor α) := (p.ends ⟨l, r, []⟩).head?

/-! ## What a match is -/

/-- **A pattern spans a piece of text**, between what is in front of it, nearest first, and what is
behind. -/
def Spans : Pattern α → List α → List α → List α → Prop
  | .nothing, _, m, _ => m = []
  | .one p, _, m, _ => ∃ a, m = [a] ∧ p a = true
  | .many p, _, m, _ => ∀ a ∈ m, p a = true
  | .few p, _, m, _ => ∀ a ∈ m, p a = true
  | .edge word, l, m, r => m = [] ∧ l.head?.any word ≠ r.head?.any word
  | .notAhead p, _, m, r => m = [] ∧ r.head?.any p = false
  | .seq a b, l, m, r => ∃ m₁ m₂, m = m₁ ++ m₂ ∧ a.Spans l m₁ (m₂ ++ r) ∧
      b.Spans (m₁.reverse ++ l) m₂ r
  | .alt a b, l, m, r => a.Spans l m r ∨ b.Spans l m r
  | .opt a, l, m, r => a.Spans l m r ∨ m = []
  | .group _ a, l, m, r => a.Spans l m r

/-- A place behind another, with a piece of text between them. -/
structure Behind (c : Cursor α) (m : List α) (e : Cursor α) : Prop where
  /-- The piece begins at the one. -/
  right_eq : c.right = m ++ e.right
  /-- It ends at the other. -/
  left_eq : e.left = m.reverse ++ c.left

/-- No text between two places. -/
theorem Behind.refl (c : Cursor α) : Behind c [] c := ⟨rfl, rfl⟩

/-- One piece behind another. -/
theorem Behind.trans {c d e : Cursor α} {m n : List α} (h : Behind c m d) (k : Behind d n e) :
    Behind c (m ++ n) e := by
  refine ⟨?_, ?_⟩
  · rw [h.right_eq, k.right_eq, List.append_assoc]
  · rw [k.left_eq, h.left_eq, List.reverse_append, List.append_assoc]

/-- The places in a run of a class are found. -/
theorem mem_runs (p : α → Bool) (groups : List (Nat × List α)) (l : List α) {m : List α}
    (hm : ∀ a ∈ m, p a = true) (r : List α) :
    ⟨m.reverse ++ l, r, groups⟩ ∈ runs p groups l (m ++ r) := by
  induction m generalizing l with
  | nil =>
    cases r with
    | nil => exact List.mem_singleton_self _
    | cons a r => exact List.mem_cons_self
  | cons a m ih =>
    rw [List.cons_append, runs, if_pos (hm a List.mem_cons_self), List.reverse_cons,
      List.append_assoc, List.singleton_append]
    exact List.mem_cons_of_mem _ (ih (a :: l) fun b hb => hm b (List.mem_cons_of_mem a hb))

/-- Only they are. -/
theorem behind_of_mem_runs {p : α → Bool} {groups : List (Nat × List α)} {l r : List α}
    {e : Cursor α} (he : e ∈ runs p groups l r) :
    ∃ m, Behind ⟨l, r, groups⟩ m e ∧ (∀ a ∈ m, p a = true) ∧ e.groups = groups := by
  -- the place itself, with no text in between
  have hnil : ∃ m, Behind ⟨l, r, groups⟩ m ⟨l, r, groups⟩ ∧ (∀ a ∈ m, p a = true) ∧
      (⟨l, r, groups⟩ : Cursor α).groups = groups := ⟨[], .refl _, by simp, rfl⟩
  induction r generalizing l with
  | nil =>
    rw [List.mem_singleton.mp he]
    exact hnil
  | cons a r ih =>
    rw [runs] at he
    obtain rfl | hmem := List.mem_cons.mp he
    · exact hnil
    · split at hmem
      next ha =>
        obtain ⟨m, hm, hall, hgroups⟩ := ih hmem ⟨[], .refl _, by simp, rfl⟩
        refine ⟨a :: m, ⟨?_, ?_⟩, List.forall_mem_cons.mpr ⟨ha, hall⟩, hgroups⟩
        · exact congrArg (List.cons a) hm.right_eq
        · rw [hm.left_eq, List.reverse_cons, List.append_assoc, List.singleton_append]
      next => cases hmem

/-- **The matcher is sound**: the piece in front of a place that it finds is spanned. -/
theorem spans_of_mem_ends {p : Pattern α} {c e : Cursor α} (he : e ∈ p.ends c) :
    ∃ m, Behind c m e ∧ p.Spans c.left m e.right := by
  induction p generalizing c e with
  | nothing =>
    rw [List.mem_singleton.mp he]
    exact ⟨[], .refl c, rfl⟩
  | one p =>
    obtain ⟨l, r, groups⟩ := c
    cases r with
    | nil => cases he
    | cons a r =>
      rw [ends] at he
      split at he
      next ha =>
        rw [List.mem_singleton.mp he]
        exact ⟨[a], ⟨rfl, rfl⟩, a, rfl, ha⟩
      next => cases he
  | many p =>
    obtain ⟨m, hm, hall, -⟩ := behind_of_mem_runs (List.mem_reverse.mp he)
    exact ⟨m, hm, hall⟩
  | few p =>
    obtain ⟨m, hm, hall, -⟩ := behind_of_mem_runs he
    exact ⟨m, hm, hall⟩
  | edge word =>
    rw [ends] at he
    split at he
    next hedge =>
      rw [List.mem_singleton.mp he]
      exact ⟨[], .refl c, rfl, bne_iff_ne.mp hedge⟩
    next => cases he
  | notAhead p =>
    rw [ends] at he
    split at he
    next => cases he
    next hp =>
      rw [List.mem_singleton.mp he]
      exact ⟨[], .refl c, rfl, Bool.eq_false_iff.mpr hp⟩
  -- what the one leaves is where the other begins, to the left and to the right
  | seq a b iha ihb =>
    obtain ⟨d, hd, he⟩ := List.mem_flatMap.mp he
    obtain ⟨m, hm, ha⟩ := iha hd
    obtain ⟨n, hn, hb⟩ := ihb he
    refine ⟨m ++ n, hm.trans hn, m, n, rfl, ?_, ?_⟩
    · rw [← hn.right_eq]
      exact ha
    · rw [← hm.left_eq]
      exact hb
  | alt a b iha ihb =>
    obtain he | he := List.mem_append.mp he
    · obtain ⟨m, hm, ha⟩ := iha he
      exact ⟨m, hm, .inl ha⟩
    · obtain ⟨m, hm, hb⟩ := ihb he
      exact ⟨m, hm, .inr hb⟩
  | opt a ih =>
    obtain he | he := List.mem_append.mp he
    · obtain ⟨m, hm, ha⟩ := ih he
      exact ⟨m, hm, .inl ha⟩
    · rw [List.mem_singleton.mp he]
      exact ⟨[], .refl c, .inr rfl⟩
  | group n a ih =>
    obtain ⟨d, hd, rfl⟩ := List.mem_map.mp he
    obtain ⟨m, hm, ha⟩ := ih hd
    exact ⟨m, ⟨hm.right_eq, hm.left_eq⟩, ha⟩

/-- **The matcher is complete**: a place behind a piece that is spanned is found. -/
theorem mem_ends_of_spans {p : Pattern α} {c : Cursor α} {m r : List α} (hm : c.right = m ++ r)
    (h : p.Spans c.left m r) : ∃ e ∈ p.ends c, Behind c m e ∧ e.right = r := by
  induction p generalizing c m r with
  | nothing =>
    obtain rfl : m = [] := h
    exact ⟨c, List.mem_singleton_self c, .refl c, hm⟩
  | one p =>
    obtain ⟨l, r', groups⟩ := c
    obtain ⟨a, rfl, ha⟩ := h
    obtain rfl : r' = a :: r := hm
    refine ⟨⟨a :: l, r, groups⟩, ?_, ⟨rfl, rfl⟩, rfl⟩
    rw [ends, if_pos ha]
    exact List.mem_singleton_self _
  | many p =>
    -- the order of the places does not matter here
    refine ⟨⟨m.reverse ++ c.left, r, c.groups⟩, ?_, ⟨hm, rfl⟩, rfl⟩
    rw [ends, List.mem_reverse, hm]
    exact mem_runs p c.groups c.left h r
  | few p =>
    refine ⟨⟨m.reverse ++ c.left, r, c.groups⟩, ?_, ⟨hm, rfl⟩, rfl⟩
    rw [ends, hm]
    exact mem_runs p c.groups c.left h r
  | edge word =>
    obtain ⟨rfl, hedge⟩ := h
    obtain rfl : c.right = r := hm
    refine ⟨c, ?_, .refl c, rfl⟩
    rw [ends, if_pos (bne_iff_ne.mpr hedge)]
    exact List.mem_singleton_self c
  | notAhead p =>
    obtain ⟨rfl, hp⟩ := h
    obtain rfl : c.right = r := hm
    refine ⟨c, ?_, .refl c, rfl⟩
    rw [ends, if_neg (Bool.eq_false_iff.mp hp)]
    exact List.mem_singleton_self c
  | seq a b iha ihb =>
    obtain ⟨m₁, m₂, rfl, ha, hb⟩ := h
    rw [List.append_assoc] at hm
    obtain ⟨d, hd, hbehind, hright⟩ := iha hm ha
    rw [← hbehind.left_eq] at hb
    obtain ⟨e, he, hbehind', hright'⟩ := ihb hright hb
    exact ⟨e, List.mem_flatMap.mpr ⟨d, hd, he⟩, hbehind.trans hbehind', hright'⟩
  | alt a b iha ihb =>
    obtain h | h := h
    · obtain ⟨e, he, hbehind⟩ := iha hm h
      exact ⟨e, List.mem_append_left _ he, hbehind⟩
    · obtain ⟨e, he, hbehind⟩ := ihb hm h
      exact ⟨e, List.mem_append_right _ he, hbehind⟩
  | opt a ih =>
    obtain h | rfl := h
    · obtain ⟨e, he, hbehind⟩ := ih hm h
      exact ⟨e, List.mem_append_left _ he, hbehind⟩
    · exact ⟨c, List.mem_append_right _ (List.mem_singleton_self c), .refl c, hm⟩
  | group n a ih =>
    obtain ⟨e, he, hbehind, hright⟩ := ih hm h
    exact ⟨_, List.mem_map.mpr ⟨e, he, rfl⟩, ⟨hbehind.right_eq, hbehind.left_eq⟩, hright⟩

/-- The groups of a pattern. -/
def captures : Pattern α → List (Nat × Pattern α)
  | .seq a b | .alt a b => a.captures ++ b.captures
  | .opt a => a.captures
  | .group n a => (n, a) :: a.captures
  | .nothing | .one _ | .many _ | .few _ | .edge _ | .notAhead _ => []

/-- **What a group captures** is spanned by what is in the group. -/
theorem spans_of_mem_groups {p : Pattern α} {c e : Cursor α} (he : e ∈ p.ends c)
    {x : Nat × List α} (hx : x ∈ e.groups) :
    x ∈ c.groups ∨ ∃ a l r, (x.1, a) ∈ p.captures ∧ a.Spans l x.2 r := by
  induction p generalizing c e with
  | nothing =>
    rw [List.mem_singleton.mp he] at hx
    exact .inl hx
  | one p =>
    obtain ⟨l, r, groups⟩ := c
    cases r with
    | nil => cases he
    | cons a r =>
      rw [ends] at he
      split at he
      next =>
        rw [List.mem_singleton.mp he] at hx
        exact .inl hx
      next => cases he
  | many p =>
    obtain ⟨-, -, -, hgroups⟩ := behind_of_mem_runs (List.mem_reverse.mp he)
    rw [hgroups] at hx
    exact .inl hx
  | few p =>
    obtain ⟨-, -, -, hgroups⟩ := behind_of_mem_runs he
    rw [hgroups] at hx
    exact .inl hx
  | edge word =>
    rw [ends] at he
    split at he
    next =>
      rw [List.mem_singleton.mp he] at hx
      exact .inl hx
    next => cases he
  | notAhead p =>
    rw [ends] at he
    split at he
    next => cases he
    next =>
      rw [List.mem_singleton.mp he] at hx
      exact .inl hx
  | seq a b iha ihb =>
    obtain ⟨d, hd, he⟩ := List.mem_flatMap.mp he
    -- captured by the second, by the first, or before both
    obtain hx | ⟨q, l, r, hq, hspans⟩ := ihb he hx
    · obtain hx | ⟨q, l, r, hq, hspans⟩ := iha hd hx
      · exact .inl hx
      · exact .inr ⟨q, l, r, List.mem_append_left _ hq, hspans⟩
    · exact .inr ⟨q, l, r, List.mem_append_right _ hq, hspans⟩
  | alt a b iha ihb =>
    obtain he | he := List.mem_append.mp he
    · obtain hx | ⟨q, l, r, hq, hspans⟩ := iha he hx
      · exact .inl hx
      · exact .inr ⟨q, l, r, List.mem_append_left _ hq, hspans⟩
    · obtain hx | ⟨q, l, r, hq, hspans⟩ := ihb he hx
      · exact .inl hx
      · exact .inr ⟨q, l, r, List.mem_append_right _ hq, hspans⟩
  | opt a ih =>
    obtain he | he := List.mem_append.mp he
    · exact ih he hx
    · rw [List.mem_singleton.mp he] at hx
      exact .inl hx
  | group n a ih =>
    obtain ⟨d, hd, rfl⟩ := List.mem_map.mp he
    obtain rfl | hx := List.mem_cons.mp hx
    · obtain ⟨m, hm, hspans⟩ := spans_of_mem_ends hd
      -- what this group takes is the piece in front of where it ends
      refine .inr ⟨a, c.left, d.right, List.mem_cons_self, ?_⟩
      dsimp only
      rw [hm.right_eq, List.length_append, Nat.add_sub_cancel, List.take_left]
      exact hspans
    · obtain hx | ⟨q, l, r, hq, hspans⟩ := ih hd hx
      · exact .inl hx
      · exact .inr ⟨q, l, r, List.mem_cons_of_mem _ hq, hspans⟩

/-- The classes that a pattern looks for next to a match. -/
def looks : Pattern α → List (α → Bool)
  | .edge word => [word]
  | .notAhead p => [p]
  | .seq a b | .alt a b => a.looks ++ b.looks
  | .opt a | .group _ a => a.looks
  | .nothing | .one _ | .many _ | .few _ => []

/-- **A match depends on what it spans**, and on what the pattern looks for next to it. -/
theorem Spans.congr {p : Pattern α} {l l' m r r' : List α} (h : p.Spans l m r)
    (hl : ∀ q ∈ p.looks, l'.head?.any q = l.head?.any q)
    (hr : ∀ q ∈ p.looks, r'.head?.any q = r.head?.any q) : p.Spans l' m r' := by
  induction p generalizing l l' m r r' with
  | nothing | one _ | many _ | few _ => exact h
  | edge word =>
    obtain ⟨rfl, hedge⟩ := h
    refine ⟨rfl, ?_⟩
    rw [hl word (List.mem_singleton_self word), hr word (List.mem_singleton_self word)]
    exact hedge
  | notAhead p =>
    obtain ⟨rfl, hp⟩ := h
    refine ⟨rfl, ?_⟩
    rw [hr p (List.mem_singleton_self p)]
    exact hp
  | seq a b iha ihb =>
    obtain ⟨m₁, m₂, rfl, ha, hb⟩ := h
    refine ⟨m₁, m₂, rfl, iha ha ?_ fun q hq => ?_, ihb hb (fun q hq => ?_) ?_⟩
    · exact fun q hq => hl q (List.mem_append_left _ hq)
    · -- behind the first comes the second, or if that is empty what is behind both
      cases m₂ with
      | nil => exact hr q (List.mem_append_left _ hq)
      | cons => rfl
    · rw [List.head?_append, List.head?_append]
      cases m₁.reverse.head? with
      | none => exact hl q (List.mem_append_right _ hq)
      | some => rfl
    · exact fun q hq => hr q (List.mem_append_right _ hq)
  | alt a b iha ihb =>
    obtain h | h := h
    · exact .inl (iha h (fun q hq => hl q (List.mem_append_left _ hq))
        fun q hq => hr q (List.mem_append_left _ hq))
    · exact .inr (ihb h (fun q hq => hl q (List.mem_append_right _ hq))
        fun q hq => hr q (List.mem_append_right _ hq))
  | opt a ih =>
    obtain h | rfl := h
    · exact .inl (ih h hl hr)
    · exact .inr rfl
  | group n a ih => exact ih h hl hr

/-- A text looks for nothing. -/
theorem looks_lit [BEq α] (w : List α) : (lit w).looks = [] := by
  induction w with
  | nil => rfl
  | cons a w ih =>
    rw [lit, looks, ih]
    rfl

/-- A text spans itself. -/
theorem spans_lit [BEq α] [LawfulBEq α] {w l m r : List α} : (lit w).Spans l m r ↔ m = w := by
  induction w generalizing l m with
  | nil => exact Iff.rfl
  | cons a w ih =>
    constructor
    · rintro ⟨m₁, m₂, rfl, ⟨b, rfl, hb⟩, hrest⟩
      rw [ih.mp hrest, eq_of_beq hb, List.singleton_append]
    · rintro rfl
      exact ⟨[a], w, rfl, ⟨a, rfl, beq_self_eq_true a⟩, ih.mpr rfl⟩

/-- The place behind a text. -/
theorem ends_lit [BEq α] [LawfulBEq α] {w l r : List α} {groups : List (Nat × List α)} :
    (lit w).ends ⟨l, w ++ r, groups⟩ = [⟨w.reverse ++ l, r, groups⟩] := by
  induction w generalizing l with
  | nil => rfl
  | cons a w ih =>
    have hone : (one (· == a)).ends ⟨l, a :: (w ++ r), groups⟩ = [⟨a :: l, w ++ r, groups⟩] :=
      if_pos (beq_self_eq_true a)
    rw [lit, ends, List.cons_append, hone, List.flatMap_singleton, ih, List.reverse_cons,
      List.append_assoc, List.singleton_append]

/-- There is none where the text is not there. -/
theorem ends_lit_eq_nil [BEq α] [LawfulBEq α] {w : List α} {c : Cursor α} (h : ¬ w <+: c.right) :
    (lit w).ends c = [] := by
  refine List.eq_nil_iff_forall_not_mem.mpr fun e he => h ?_
  obtain ⟨m, hm, hspans⟩ := spans_of_mem_ends he
  rw [spans_lit.mp hspans] at hm
  exact ⟨e.right, hm.right_eq.symm⟩

/-- The last place in a run of a class is where the class ends. -/
theorem getLast?_runs (p : α → Bool) (groups : List (Nat × List α)) (l r : List α) :
    (runs p groups l r).getLast?.map Cursor.right = some (r.dropWhile p) := by
  induction r generalizing l with
  | nil => rfl
  | cons a r ih =>
    rw [runs]
    by_cases ha : p a = true
    · -- a run has a place at least, the one where it begins
      have hne : runs p groups (a :: l) r ≠ [] := by
        cases r with
        | nil => exact List.cons_ne_nil _ _
        | cons b r => exact List.cons_ne_nil _ _
      rw [if_pos ha, List.dropWhile_cons_of_pos ha, List.getLast?_cons,
        List.getLast?_eq_some_getLast hne, Option.getD_some, ← ih (a :: l),
        List.getLast?_eq_some_getLast hne]
    · rw [if_neg ha, List.dropWhile_cons_of_neg ha]
      rfl

/-- **As many of a class as there are**: the first try goes to where the class ends. -/
theorem head?_ends_many (p : α → Bool) (c : Cursor α) :
    ((many p).ends c).head?.map Cursor.right = some (c.right.dropWhile p) := by
  rw [ends, List.head?_reverse]
  exact getLast?_runs p c.groups c.left c.right

/-! ## Searching -/

/-- A match: where it begins, and the place behind it. -/
structure Hit (α : Type*) where
  /-- What is in front of it, the nearest first. -/
  left : List α
  /-- The text from its beginning on. -/
  right : List α
  /-- The place behind it. -/
  stop : Cursor α

/-- What is matched. -/
def Hit.text (h : Hit α) : List α := h.right.take (h.right.length - h.stop.right.length)

/-- What a group has captured. -/
def Hit.group? (h : Hit α) (n : Nat) : Option (List α) :=
  (h.stop.groups.find? (·.1 == n)).map Prod.snd

/-- **`finditer`**: the matches from left to right, none beginning inside another; `k` characters
still belong to the last one. For patterns that match no empty text. -/
def hits (p : Pattern α) : List α → Nat → List α → List (Hit α)
  | _, _, [] => []
  | l, k + 1, a :: r => hits p (a :: l) k r
  | l, 0, a :: r =>
      match p.first l (a :: r) with
      | none => hits p (a :: l) 0 r
      | some e => ⟨l, a :: r, e⟩ :: hits p (a :: l) (r.length - e.right.length) r

/-- `finditer` on a text. -/
def finditer (p : Pattern α) (text : List α) : List (Hit α) := p.hits [] 0 text

/-- **`search`**: the first match. -/
def search (p : Pattern α) (text : List α) : Option (Hit α) := (p.finditer text).head?

/-- **`sub`**, with a function of what is matched. -/
def sub (p : Pattern α) (f : List α → List α) : List α → Nat → List α → List α
  | _, _, [] => []
  | l, k + 1, a :: r => sub p f (a :: l) k r
  | l, 0, a :: r =>
      match p.first l (a :: r) with
      | none => a :: sub p f (a :: l) 0 r
      | some e => f ((a :: r).take (r.length + 1 - e.right.length))
          ++ sub p f (a :: l) (r.length - e.right.length) r

/-- The characters of a text that belong to a match. -/
def covered (p : Pattern α) : List α → Nat → List α → List Bool
  | _, _, [] => []
  | l, k + 1, a :: r => true :: covered p (a :: l) k r
  | l, 0, a :: r =>
      match p.first l (a :: r) with
      | none => false :: covered p (a :: l) 0 r
      | some e => true :: covered p (a :: l) (r.length - e.right.length) r

/-- A pattern matches no empty text. -/
def Solid (p : Pattern α) : Prop := ∀ {l m r}, p.Spans l m r → m ≠ []

/-- The match at a place is spanned. -/
theorem spans_of_first {p : Pattern α} {l r : List α} {e : Cursor α} (he : p.first l r = some e) :
    ∃ m, r = m ++ e.right ∧ p.Spans l m e.right := by
  obtain ⟨m, hbehind, hspans⟩ := spans_of_mem_ends (List.mem_of_mem_head? he)
  exact ⟨m, hbehind.right_eq, hspans⟩

/-- Where something is spanned there is a match. -/
theorem exists_first {p : Pattern α} {l m r : List α} (h : p.Spans l m r) :
    ∃ e, p.first l (m ++ r) = some e := by
  obtain ⟨e, he, -⟩ := mem_ends_of_spans (c := ⟨l, m ++ r, []⟩) rfl h
  cases hfirst : p.first l (m ++ r) with
  | none =>
    rw [first, List.head?_eq_none_iff] at hfirst
    rw [hfirst] at he
    cases he
  | some e => exact ⟨e, rfl⟩

/-- A match is at least one character long. -/
theorem length_stop_le {p : Pattern α} (hp : p.Solid) {l r : List α} {a : α} {e : Cursor α}
    (he : p.first l (a :: r) = some e) : e.right.length ≤ r.length := by
  obtain ⟨m, hm, hspans⟩ := spans_of_first he
  have hlen := congrArg List.length hm
  have hpos := List.length_pos_of_ne_nil (hp hspans)
  rw [List.length_cons, List.length_append] at hlen
  omega

/-- **What `finditer` finds** lies in the text, and is spanned. -/
theorem spans_of_mem_hits {p : Pattern α} {l r : List α} {k : Nat} {h : Hit α}
    (hh : h ∈ p.hits l k r) :
    ∃ x m, r = x ++ m ++ h.stop.right ∧ h.left = x.reverse ++ l ∧ h.right = m ++ h.stop.right ∧
      p.Spans h.left m h.stop.right := by
  -- a match further on is one of the longer text
  have hskip {l' r' : List α} {a : α} (hx : ∃ x m, r' = x ++ m ++ h.stop.right ∧
      h.left = x.reverse ++ a :: l' ∧ h.right = m ++ h.stop.right ∧
      p.Spans h.left m h.stop.right) : ∃ x m, a :: r' = x ++ m ++ h.stop.right ∧
      h.left = x.reverse ++ l' ∧ h.right = m ++ h.stop.right ∧
      p.Spans h.left m h.stop.right := by
    obtain ⟨x, m, rfl, hleft, hrest⟩ := hx
    exact ⟨a :: x, m, rfl, by simpa using hleft, hrest⟩
  induction r generalizing l k with
  | nil => cases hh
  | cons a r ih =>
    cases k with
    | succ k => exact hskip (ih hh)
    | zero =>
      rw [hits] at hh
      split at hh
      next => exact hskip (ih hh)
      next e he =>
        obtain rfl | hmem := List.mem_cons.mp hh
        · obtain ⟨m, hm, hspans⟩ := spans_of_first he
          exact ⟨[], m, hm, rfl, hm, hspans⟩
        · exact hskip (ih hmem)

/-- What `finditer` finds is the match at its place. -/
theorem first_of_mem_hits {p : Pattern α} {l r : List α} {k : Nat} {h : Hit α}
    (hh : h ∈ p.hits l k r) : p.first h.left h.right = some h.stop := by
  induction r generalizing l k with
  | nil => cases hh
  | cons a r ih =>
    cases k with
    | succ k => exact ih hh
    | zero =>
      rw [hits] at hh
      split at hh
      next => exact ih hh
      next e he =>
        obtain rfl | hmem := List.mem_cons.mp hh
        · exact he
        · exact ih hmem

/-- **What a group of a match captures** is spanned by what is in the group. -/
theorem spans_of_group? {p : Pattern α} {text : List α} {h : Hit α} (hh : h ∈ p.finditer text)
    {n : Nat} {w : List α} (hw : h.group? n = some w) :
    ∃ a l r, (n, a) ∈ p.captures ∧ a.Spans l w r := by
  obtain ⟨x, hfind, rfl⟩ := Option.map_eq_some_iff.mp hw
  have hn := List.find?_some hfind
  rw [beq_iff_eq] at hn
  have hstop := List.mem_of_mem_head? (first_of_mem_hits hh)
  obtain hx | hspans := spans_of_mem_groups hstop (List.mem_of_find?_eq_some hfind)
  · cases hx
  · rw [← hn]
    exact hspans

/-- **No match begins inside another.** -/
def Apart (p : Pattern α) : Prop :=
  ∀ {l m₁ m₂ r m r'}, p.Spans l (m₁ ++ m₂) r → m₁ ≠ [] → m₂ ≠ [] → m₂ ++ r = m ++ r' →
    ¬ p.Spans (m₁.reverse ++ l) m r'

/-- **`finditer` finds every match** of a pattern whose matches stay apart. -/
theorem exists_mem_hits {p : Pattern α} (hsolid : p.Solid) (hapart : p.Apart) {x m r : List α}
    {l : List α} {k : Nat} (hk : k ≤ x.length) (h : p.Spans (x.reverse ++ l) m r) :
    ∃ h ∈ p.hits l k (x ++ m ++ r), h.left = x.reverse ++ l := by
  induction x generalizing l k with
  | nil =>
    obtain rfl : k = 0 := Nat.le_zero.mp hk
    cases m with
    | nil => exact absurd rfl (hsolid h)
    | cons a m =>
      obtain ⟨e, he⟩ := exists_first h
      refine ⟨⟨l, a :: (m ++ r), e⟩, ?_, rfl⟩
      show _ ∈ p.hits l 0 (a :: (m ++ r))
      rw [hits, show p.first l (a :: (m ++ r)) = some e from he]
      exact List.mem_cons_self
  | cons a x ih =>
    -- one character further the match is still in front
    have h' : p.Spans (x.reverse ++ a :: l) m r := by simpa using h
    have hleft : (a :: x).reverse ++ l = x.reverse ++ a :: l := by simp
    rw [hleft]
    cases k with
    | succ k => exact ih (Nat.le_of_succ_le_succ hk) h'
    | zero =>
      rw [List.cons_append, List.cons_append, hits]
      cases hfirst : p.first l (a :: (x ++ m ++ r)) with
      | none => exact ih (Nat.zero_le _) h'
      | some e =>
        -- another match begins earlier: it must not reach the one that is looked for
        obtain ⟨m₀, hm₀, hspans⟩ := spans_of_first hfirst
        have hlen := congrArg List.length hm₀
        have hstop := length_stop_le hsolid hfirst
        simp only [List.length_cons, List.length_append] at hlen hstop
        -- the match at this place ends in front of the other one
        have hbefore : (x ++ m ++ r).length - e.right.length ≤ x.length := by
          by_contra hlong
          simp only [List.length_append] at hlong
          have hsplit : a :: x ++ (m ++ r) = m₀ ++ e.right := by
            rw [← hm₀, List.append_assoc, List.cons_append]
          obtain ⟨y, hy⟩ : a :: x <+: m₀ :=
            List.prefix_of_prefix_length_le (List.prefix_append _ _)
              (hsplit ▸ List.prefix_append m₀ e.right) (by rw [List.length_cons]; omega)
          have hy' : y ≠ [] := by
            rintro rfl
            have := congrArg List.length hy
            simp only [List.append_nil, List.length_cons] at this
            omega
          rw [← hy, List.append_assoc] at hsplit
          rw [← hy] at hspans
          refine hapart hspans (List.cons_ne_nil a x) hy' (List.append_cancel_left hsplit).symm ?_
          rw [hleft]
          exact h'
        obtain ⟨hit, hmem, heq⟩ := ih hbefore h'
        exact ⟨hit, List.mem_cons_of_mem _ hmem, heq⟩

/-- What is left of a match is covered. -/
theorem covered_append (p : Pattern α) (l m r : List α) :
    p.covered l m.length (m ++ r)
      = List.replicate m.length true ++ p.covered (m.reverse ++ l) 0 r := by
  induction m generalizing l with
  | nil => rfl
  | cons a m ih =>
    rw [List.cons_append, List.length_cons, covered, ih, List.replicate_succ, List.reverse_cons,
      List.append_assoc, List.singleton_append, List.cons_append]

/-! ## Replacing -/

/-- A text with the marked characters replaced. -/
def paint (g : α → α) (marks : List Bool) (text : List α) : List α :=
  List.zipWith (fun b a => if b then g a else a) marks text

/-- **`sub` with a function of the characters** paints what the matches cover. -/
theorem sub_map {p : Pattern α} (hsolid : p.Solid) (g : α → α) {r : List α} (l : List α) {k : Nat}
    (hk : k ≤ r.length) :
    (r.take k).map g ++ p.sub (List.map g) l k r = paint g (p.covered l k r) r := by
  induction r generalizing l k with
  | nil =>
    obtain rfl : k = 0 := Nat.le_zero.mp hk
    rfl
  | cons a r ih =>
    cases k with
    | succ k =>
      rw [covered, sub, paint, List.zipWith_cons_cons, if_pos rfl, List.take_succ_cons,
        List.map_cons, List.cons_append, ih (a :: l) (Nat.le_of_succ_le_succ hk), paint]
    | zero =>
      rw [List.take_zero, List.map_nil, List.nil_append, covered, sub]
      cases hfirst : p.first l (a :: r) with
      | none =>
        have hrest := ih (a :: l) (Nat.zero_le _)
        rw [List.take_zero, List.map_nil, List.nil_append] at hrest
        dsimp only
        rw [hrest]
        rfl
      | some e =>
        -- a match takes a character at least; what is left of it is covered on the way
        have hstop := length_stop_le hsolid hfirst
        have hlen : r.length + 1 - e.right.length = r.length - e.right.length + 1 := by omega
        have hrest := ih (a :: l) (Nat.sub_le r.length e.right.length)
        dsimp only
        rw [hlen, List.take_succ_cons, List.map_cons, List.cons_append, hrest]
        rfl

/-- Painted twice. -/
theorem paint_paint {g : α → α} (hg : ∀ a, g (g a) = g a) (ms ns : List Bool) (text : List α) :
    paint g ns (paint g ms text) = paint g (List.zipWith or ms ns) text := by
  induction text generalizing ms ns with
  | nil => simp [paint]
  | cons a text ih =>
    cases ms with
    | nil => simp [paint]
    | cons b ms =>
      cases ns with
      | nil => simp [paint]
      | cons b' ns =>
        have hrest := ih ms ns
        simp only [paint] at hrest ⊢
        simp only [List.zipWith_cons_cons, hrest]
        cases b <;> cases b' <;> simp [hg]

end Pattern

end Thicket.Regex
