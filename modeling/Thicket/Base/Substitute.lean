import Mathlib.Data.List.Infix

/-! # One word for another

Every occurrence of a word in a text is replaced, from the left and without overlap. A stretch of
the text that no occurrence can overlap survives this, and so is a boundary between two texts that
are replaced apart. -/

namespace Thicket.Substitute

variable {α : Type*} [DecidableEq α]

/-- **Every `old` becomes `new`**, the leftmost first; `old` is not empty. -/
def replace (old new : List α) : List α → List α
  | [] => []
  | c :: text =>
      if old <+: c :: text then new ++ replace old new (text.drop (old.length - 1))
      else c :: replace old new text
termination_by text => text.length
decreasing_by
  · rw [List.length_drop, List.length_cons]
    omega
  · exact Nat.lt_succ_self _

/-- **No occurrence of `old` overlaps an occurrence of `s`**: they cannot agree wherever one begins
within the other. -/
def Apart (old s : List α) : Prop :=
  (∀ t ∈ s.tails, t ≠ [] → ¬ t <+: old ∧ ¬ old <+: t) ∧
    ∀ t ∈ old.tails, t ≠ [] → ¬ t <+: s ∧ ¬ s <+: t

instance (old s : List α) : Decidable (Apart old s) := inferInstanceAs (Decidable (_ ∧ _))

variable {old new s : List α}

@[simp] theorem replace_nil : replace old new [] = [] := by rw [replace]

/-- An occurrence at the front. -/
theorem replace_append (hold : old ≠ []) (text : List α) :
    replace old new (old ++ text) = new ++ replace old new text := by
  obtain ⟨c, old', rfl⟩ := List.exists_cons_of_ne_nil hold
  have hfront : c :: old' <+: c :: (old' ++ text) := List.prefix_append (c :: old') text
  rw [List.cons_append, replace, if_pos hfront, List.length_cons, Nat.add_sub_cancel,
    List.drop_left]

/-- No occurrence at the front. -/
theorem replace_cons {c : α} {text : List α} (h : ¬ old <+: c :: text) :
    replace old new (c :: text) = c :: replace old new text := by
  rw [replace, if_neg h]

/-- What cannot be overlapped stays, at the front of a text. -/
theorem replace_apart_append (h : Apart old s) {t : List α} (ht : t <:+ s) (b : List α) :
    replace old new (t ++ b) = t ++ replace old new b := by
  induction t with
  | nil => rfl
  | cons c t ih =>
    obtain ⟨hlong, hshort⟩ := h.1 (c :: t) ((List.mem_tails _ _).mpr ht) (List.cons_ne_nil c t)
    have hno : ¬ old <+: c :: (t ++ b) := by
      intro hold
      obtain hle | hle := List.prefix_or_prefix_of_prefix hold (List.prefix_append (c :: t) b)
      · exact hshort hle
      · exact hlong hle
    rw [List.cons_append, replace_cons hno, ih ((List.suffix_cons c t).trans ht), List.cons_append]

/-- **What cannot be overlapped divides the text**: the two sides are replaced apart. -/
theorem replace_apart (h : Apart old s) (hold : old ≠ []) (a b : List α) :
    replace old new (a ++ (s ++ b)) = replace old new a ++ (s ++ replace old new b) := by
  induction hn : a.length using Nat.strong_induction_on generalizing a with
  | _ n ih =>
  cases a with
  | nil =>
    rw [List.nil_append, replace_nil, List.nil_append, replace_apart_append h List.suffix_rfl]
  | cons c a =>
    by_cases hfront : old <+: c :: a
    · -- an occurrence within the left side
      obtain ⟨rest, hrest⟩ := hfront
      have hlen : rest.length < n := by
        have hpos := List.length_pos_of_ne_nil hold
        have hsum := congrArg List.length hrest
        rw [List.length_append] at hsum
        omega
      rw [← hrest, List.append_assoc, replace_append hold, replace_append hold,
        ih _ hlen rest rfl, List.append_assoc]
    · have hno : ¬ old <+: c :: (a ++ (s ++ b)) := by
        intro hocc
        obtain hle | ⟨t, ht⟩ :=
          List.prefix_or_prefix_of_prefix hocc (List.prefix_append (c :: a) (s ++ b))
        · exact hfront hle
        · -- the occurrence would reach into `s`
          have hne : t ≠ [] := by
            rintro rfl
            rw [List.append_nil] at ht
            exact hfront (ht ▸ List.prefix_rfl)
          rw [← ht] at hocc
          have hreach : t <+: s ++ b := (List.prefix_append_right_inj (c :: a)).mp hocc
          obtain ⟨hin, hover⟩ := h.2 t ((List.mem_tails _ _).mpr ⟨c :: a, ht⟩) hne
          obtain hle | hle := List.prefix_or_prefix_of_prefix hreach (List.prefix_append s b)
          · exact hin hle
          · exact hover hle
      rw [List.cons_append, replace_cons hno, replace_cons hfront, List.cons_append,
        ih a.length (by rw [← hn]; exact Nat.lt_succ_self _) a rfl]

/-- **What cannot be overlapped is still there.** -/
theorem infix_replace (h : Apart old s) (hold : old ≠ []) {text : List α} (hs : s <:+: text) :
    s <:+: replace old new text := by
  obtain ⟨a, b, rfl⟩ := hs
  rw [List.append_assoc, replace_apart h hold, ← List.append_assoc]
  exact List.infix_append _ _ _

/-- **What is put in is there**, if there was anything to replace. -/
theorem new_infix_replace (hold : old ≠ []) {text : List α} (h : old <:+: text) :
    new <:+: replace old new text := by
  induction text with
  | nil => exact absurd (List.infix_nil.mp h) hold
  | cons c text ih =>
    by_cases hfront : old <+: c :: text
    · obtain ⟨rest, hrest⟩ := hfront
      rw [← hrest, replace_append hold]
      exact (List.prefix_append _ _).isInfix
    · rw [replace_cons hfront]
      obtain hpre | hin := List.infix_cons_iff.mp h
      · exact absurd hpre hfront
      · exact (ih hin).trans (List.suffix_cons _ _).isInfix

omit [DecidableEq α] in
/-- **A boundary**: behind a letter that is not in it, a word is on one side or the other. -/
theorem infix_append_of_notMem {c : α} (hc : c ∉ s) {a b : List α}
    (h : s <:+: a ++ c :: b) : s <:+: a ∨ s <:+: b := by
  obtain ⟨x, y, hxy⟩ := h
  rw [List.append_assoc] at hxy
  have hhead {t rest : List α} (ht : t ++ rest = c :: b) (hin : t <:+: s) : t = [] := by
    cases t with
    | nil => rfl
    | cons d t =>
      obtain rfl := (List.cons.inj ht).1
      exact absurd (hin.subset List.mem_cons_self) hc
  obtain ⟨t, rfl, ht⟩ | ⟨t, rfl, ht⟩ := List.append_eq_append_iff.mp hxy
  · -- the word begins on the left
    obtain ⟨r, rfl, -⟩ | ⟨r, rfl, hr⟩ := List.append_eq_append_iff.mp ht
    · exact .inl (List.infix_append' x s r)
    · rw [hhead hr.symm (List.suffix_append _ _).isInfix, List.append_nil]
      exact .inl (List.suffix_append _ _).isInfix
  · -- the word begins at the boundary or behind it
    cases t with
    | nil =>
      have hnil : s = [] := hhead ht.symm List.infix_rfl
      rw [hnil]
      exact .inl List.nil_infix
    | cons d t =>
      obtain ⟨-, rfl⟩ := List.cons.inj ht
      exact .inr (List.infix_append' t s y)

end Thicket.Substitute
