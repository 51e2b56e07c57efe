import Mathlib.Algebra.BigOperators.Group.Finset.Basic
import Mathlib.Algebra.GroupWithZero.Nat
import Mathlib.Algebra.Order.BigOperators.Group.List

/-! # A bounded tally

Things are counted by kind, first come, first served: once the table is full a new kind is not
listed, and that there was one is remembered. What the table says about the things counted is an
invariant of the counting. -/

namespace Thicket

/-- Kinds with their counts, and whether there was no room for another kind. -/
structure Tally (κ : Type*) where
  /-- The kinds listed. -/
  kinds : List (κ × Nat) := []
  /-- A kind had no room. -/
  overflowed : Bool := false

namespace Tally

variable {κ : Type*} [DecidableEq κ] {cap : Nat} {L : List κ} {t : Tally κ}

/-- One more of a kind. -/
def note (cap : Nat) (t : Tally κ) (x : κ) : Tally κ :=
  if t.kinds.any (·.1 == x) then
    { t with kinds := t.kinds.map fun k => if k.1 = x then (k.1, k.2 + 1) else k }
  else if t.kinds.length < cap then { t with kinds := t.kinds ++ [(x, 1)] }
  else { t with overflowed := true }

/-- The names of the kinds listed. -/
def names (t : Tally κ) : List κ := t.kinds.map Prod.fst

/-- **What a table says about the things counted.** -/
structure Counts (cap : Nat) (L : List κ) (t : Tally κ) : Prop where
  /-- No kind is listed twice. -/
  nodup : t.names.Nodup
  /-- The table is bounded. -/
  length_le : t.kinds.length ≤ cap
  /-- A kind that is listed occurred, as often as its count says. -/
  count_eq : ∀ p ∈ t.kinds, p.1 ∈ L ∧ p.2 = L.count p.1
  /-- Unless one had no room, all kinds are listed. -/
  all : t.overflowed = false → ∀ x ∈ L, x ∈ t.names
  /-- One had no room only when the table was full. -/
  full : t.overflowed = true → t.kinds.length = cap ∧ cap < L.toFinset.card

/-- A kind is found by its name. -/
theorem any_iff (x : κ) : t.kinds.any (·.1 == x) = true ↔ x ∈ t.names := by
  rw [names, List.any_eq_true, List.mem_map]
  exact exists_congr fun p => and_congr_right fun _ => beq_iff_eq

/-- The names and as many others as there are occurred. -/
theorem length_le_card {ks : List κ} (hnodup : ks.Nodup) (hsub : ∀ x ∈ ks, x ∈ L) :
    ks.length ≤ L.toFinset.card := by
  rw [← List.toFinset_card_of_nodup hnodup]
  exact Finset.card_le_card fun x hx => List.mem_toFinset.mpr (hsub x (List.mem_toFinset.mp hx))

/-- Another thing leaves no fewer kinds. -/
theorem card_le_card_append (x : κ) : L.toFinset.card ≤ (L ++ [x]).toFinset.card :=
  Finset.card_le_card fun y hy => by
    rw [List.mem_toFinset] at hy ⊢
    exact List.mem_append_left _ hy

/-- Nothing counted. -/
theorem counts_nil : Counts cap [] ({} : Tally κ) :=
  ⟨List.nodup_nil, Nat.zero_le _, fun _ h => absurd h List.not_mem_nil,
    fun _ _ h => absurd h List.not_mem_nil, fun h => Bool.noConfusion h⟩

/-- A kind that is listed. -/
theorem Counts.note_listed (h : Counts cap L t) {x : κ} (hx : x ∈ t.names) :
    Counts cap (L ++ [x])
      { t with kinds := t.kinds.map fun k => if k.1 = x then (k.1, k.2 + 1) else k } := by
  -- counting once more renames nothing
  have hnames : names { t with kinds := t.kinds.map fun k => if k.1 = x then (k.1, k.2 + 1) else k }
      = t.names := by
    rw [names, names, List.map_map]
    refine List.map_congr_left fun p _ => ?_
    simp only [Function.comp_apply]
    split <;> rfl
  refine ⟨hnames ▸ h.nodup, ?_, fun q hq => ?_, fun hover y hy => ?_, fun hover => ?_⟩
  · rw [List.length_map]
    exact h.length_le
  · obtain ⟨p, hp, rfl⟩ := List.mem_map.mp hq
    obtain ⟨hmem, hcount⟩ := h.count_eq p hp
    rw [List.count_append, List.mem_append]
    by_cases hpx : p.1 = x
    · rw [if_pos hpx, hcount]
      exact ⟨.inl hmem, by rw [hpx, List.count_singleton_self]⟩
    · rw [if_neg hpx, hcount, List.count_singleton]
      simp [hmem, Ne.symm hpx]
  · rw [hnames]
    rcases List.mem_append.mp hy with hy | hy
    · exact h.all hover y hy
    · rw [List.mem_singleton.mp hy]
      exact hx
  · obtain ⟨hlen, hlt⟩ := h.full hover
    rw [List.length_map]
    exact ⟨hlen, hlt.trans_le (card_le_card_append x)⟩

/-- A new kind for which there is room. -/
theorem Counts.note_new (h : Counts cap L t) {x : κ} (hx : x ∉ t.names)
    (hroom : t.kinds.length < cap) :
    Counts cap (L ++ [x]) { t with kinds := t.kinds ++ [(x, 1)] } := by
  -- where there is room nothing has been turned away
  have hover : t.overflowed = false := by
    rw [← Bool.not_eq_true]
    exact fun hover => absurd (h.full hover).1 (Nat.ne_of_lt hroom)
  have hnew : x ∉ L := fun hmem => hx (h.all hover x hmem)
  have hnames : names { t with kinds := t.kinds ++ [(x, 1)] } = t.names ++ [x] := List.map_append
  refine ⟨?_, ?_, fun p hp => ?_, fun _ y hy => ?_, fun hover' => ?_⟩
  · rw [hnames]
    exact List.nodup_append.mpr ⟨h.nodup, List.nodup_singleton x, fun a ha b hb hab =>
      hx (List.mem_singleton.mp hb ▸ hab ▸ ha)⟩
  · rw [List.length_append]
    exact hroom
  · rw [List.count_append, List.mem_append]
    rcases List.mem_append.mp hp with hp | hp
    · obtain ⟨hmem, hcount⟩ := h.count_eq p hp
      have hne : p.1 ≠ x := fun hpx => hnew (hpx ▸ hmem)
      rw [hcount, List.count_singleton]
      simp [hmem, Ne.symm hne]
    · rw [List.mem_singleton.mp hp]
      exact ⟨.inr (List.mem_singleton_self x), by simp [List.count_eq_zero_of_not_mem hnew]⟩
  · rw [hnames]
    rcases List.mem_append.mp hy with hy | hy
    · exact List.mem_append_left _ (h.all hover y hy)
    · exact List.mem_append_right _ hy
  · rw [hover] at hover'
    cases hover'

/-- A new kind for which there is none. -/
theorem Counts.note_over (h : Counts cap L t) {x : κ} (hx : x ∉ t.names)
    (hfull : cap ≤ t.kinds.length) : Counts cap (L ++ [x]) { t with overflowed := true } := by
  have hlen : t.kinds.length = cap := Nat.le_antisymm h.length_le hfull
  refine ⟨h.nodup, h.length_le, fun p hp => ?_, fun hover => Bool.noConfusion hover,
    fun _ => ⟨hlen, ?_⟩⟩
  · obtain ⟨hmem, hcount⟩ := h.count_eq p hp
    have hne : p.1 ≠ x := fun hpx => hx (hpx ▸ List.mem_map_of_mem hp)
    rw [List.count_append, List.count_singleton]
    exact ⟨List.mem_append_left _ hmem, by simp [hcount, Ne.symm hne]⟩
  · -- the kinds listed and the new one
    have hcard : (x :: t.names).length ≤ (L ++ [x]).toFinset.card :=
      length_le_card (List.nodup_cons.mpr ⟨hx, h.nodup⟩) fun y hy => by
        rw [List.mem_append]
        obtain rfl | hy := List.mem_cons.mp hy
        · exact .inr (List.mem_singleton_self y)
        · obtain ⟨p, hp, rfl⟩ := List.mem_map.mp hy
          exact .inl (h.count_eq p hp).1
    rw [List.length_cons, names, List.length_map] at hcard
    omega

/-- **Counting one more thing.** -/
theorem Counts.note (h : Counts cap L t) (x : κ) : Counts cap (L ++ [x]) (t.note cap x) := by
  rw [Tally.note]
  by_cases hx : x ∈ t.names
  · rw [if_pos ((any_iff x).mpr hx)]
    exact h.note_listed hx
  · rw [if_neg (mt (any_iff x).mp hx)]
    split
    next hroom => exact h.note_new hx hroom
    next hfull => exact h.note_over hx (Nat.not_lt.mp hfull)

/-- **What the table says in the end**, from what it says before. -/
theorem Counts.foldl (h : Counts cap L t) (M : List κ) :
    Counts cap (L ++ M) (M.foldl (Tally.note cap) t) := by
  induction M generalizing L t with
  | nil => rwa [List.append_nil]
  | cons x M ih =>
    rw [List.append_cons]
    exact ih (h.note x)

/-- **A kind had no room iff there are more kinds than room.** -/
theorem Counts.over_iff (h : Counts cap L t) : t.overflowed = true ↔ cap < L.toFinset.card := by
  refine ⟨fun hover => (h.full hover).2, fun hmore => ?_⟩
  by_contra hover
  have hall := h.all (Bool.not_eq_true _ |>.mp hover)
  have hcard : L.toFinset.card ≤ t.names.toFinset.card :=
    Finset.card_le_card fun x hx => List.mem_toFinset.mpr (hall x (List.mem_toFinset.mp hx))
  rw [List.toFinset_card_of_nodup h.nodup, names, List.length_map] at hcard
  exact absurd (hcard.trans h.length_le) (Nat.not_le.mpr hmore)

/-- **The counts sum up** where all kinds are listed. -/
theorem Counts.sum_eq (h : Counts cap L t) (hover : t.overflowed = false) :
    (t.kinds.map Prod.snd).sum = L.length := by
  have hcounts : t.kinds.map Prod.snd = t.names.map fun x => L.count x := by
    rw [names, List.map_map]
    exact List.map_congr_left fun p hp => (h.count_eq p hp).2
  have hperm : t.names.Perm L.dedup := by
    refine (List.perm_ext_iff_of_nodup h.nodup L.nodup_dedup).mpr fun x => ?_
    rw [List.mem_dedup]
    refine ⟨fun hx => ?_, h.all hover x⟩
    obtain ⟨p, hp, rfl⟩ := List.mem_map.mp hx
    exact (h.count_eq p hp).1
  rw [hcounts, (hperm.map _).sum_eq, List.sum_map_count_dedup_eq_length]

end Tally

end Thicket
