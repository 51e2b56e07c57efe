import Thicket.Scripts.CheckPins

/-! # What the pin gate guarantees

A line may name several dependencies, and several lines the same library. Of a line the gate looks
at the first dependency only, and of these at the last one of each library: what it overlooks can
be pinned to anything. -/

namespace Thicket.Scripts.CheckPins

open Thicket.Regex Thicket.Regex.Pattern Thicket.LastEntry

/-! ## The dependencies of a file -/

/-- **Every dependency** on every line that is no comment, under its library. -/
def allPins (text : List Char) : List (List Char × Pin) :=
  (numbered text).flatMap fun (line, n) =>
    if isComment line then [] else (dep.finditer line).map (pinAt n)

/-- The first one of each line. -/
def firstPins (text : List Char) : List (List Char × Pin) :=
  (numbered text).filterMap fun (line, n) =>
    if isComment line then none else (dep.search line).map (pinAt n)

/-- **The gate looks at a dependency**: it is the first on its line, and on no later line one of the
same library is. -/
def Seen (text lib : List Char) (p : Pin) : Prop := IsLast (firstPins text) lib p

/-- The map of a file is filled with the first dependencies. -/
theorem depsIn_eq (text : List Char) : depsIn text = fill (firstPins text) := by
  rw [depsIn, fill, firstPins, List.foldl_filterMap]
  congr 1
  funext out x
  dsimp only
  split
  next => rfl
  next => cases dep.search x.1 <;> rfl

/-- What is in the map is what the gate looks at. -/
theorem lookup_depsIn {text lib : List Char} {p : Pin} :
    (depsIn text).lookup lib = some p ↔ Seen text lib p := by
  rw [depsIn_eq, lookup_fill]
  rfl

/-- So is what it goes through. -/
theorem mem_sorted {text lib : List Char} {p : Pin} :
    (lib, p) ∈ sorted (depsIn text) ↔ Seen text lib p :=
  (mem_items before).trans lookup_depsIn

/-- The first of a line is one of the line. -/
theorem firstPins_subset (text : List Char) : firstPins text ⊆ allPins text := by
  intro x hx
  obtain ⟨⟨line, n⟩, hline, hx⟩ := List.mem_filterMap.mp hx
  refine List.mem_flatMap.mpr ⟨(line, n), hline, ?_⟩
  dsimp only at hx ⊢
  split at hx
  next => cases hx
  next hcode =>
    rw [if_neg hcode]
    obtain ⟨m, hm, rfl⟩ := Option.map_eq_some_iff.mp hx
    exact List.mem_map_of_mem (List.mem_of_mem_head? hm)

/-- What the gate looks at is there. -/
theorem Seen.mem {text lib : List Char} {p : Pin} (h : Seen text lib p) : (lib, p) ∈ allPins text :=
  firstPins_subset text (IsLast.mem h)

/-- A file has no first dependencies only if it has none. -/
theorem firstPins_eq_nil {text : List Char} : firstPins text = [] ↔ allPins text = [] := by
  refine ⟨fun h => ?_, fun h => List.eq_nil_of_subset_nil (h ▸ firstPins_subset text)⟩
  refine List.flatMap_eq_nil_iff.mpr fun ⟨line, n⟩ hline => ?_
  have hnone := List.filterMap_eq_nil_iff.mp h (line, n) hline
  dsimp only at hnone ⊢
  split
  next => rfl
  next hcode =>
    rw [if_neg hcode, Option.map_eq_none_iff, search, List.head?_eq_none_iff] at hnone
    rw [hnone, List.map_nil]

/-! ## Right and wrong -/

/-- **A dependency carries a commit**: 40 hexadecimal digits. -/
def Pinned (p : Pin) : Prop :=
  ∃ ref, p.ref = some ref ∧ ref.length = 40 ∧ ∀ c ∈ ref, isHex c = true

/-- **Two dependencies agree** in owner and ref. -/
def Agrees (p r : Pin) : Prop := p.owner = r.owner ∧ p.ref = r.ref

/-- No ref has white space in it. -/
theorem isSpace_of_mem_ref {text lib ref : List Char} {p : Pin} (hp : (lib, p) ∈ allPins text)
    (href : p.ref = some ref) : ∀ c ∈ ref, isSpace c = false := by
  obtain ⟨⟨line, n⟩, -, hp⟩ := List.mem_flatMap.mp hp
  dsimp only at hp
  split at hp
  next => cases hp
  next =>
    obtain ⟨m, hm, heq⟩ := List.mem_map.mp hp
    obtain ⟨-, rfl⟩ := Prod.mk.inj heq
    -- the third group holds characters of refs only
    obtain ⟨a, l, r, ha, hspans⟩ := spans_of_group? hm href
    have ha : a = plus isRefChar := by simpa [dep, captures, lit, plus] using ha
    subst ha
    obtain ⟨m₁, m₂, rfl, ⟨c, rfl, hc⟩, hrest⟩ := hspans
    intro d hd
    have hd : isRefChar d = true := by
      obtain hd | hd := List.mem_append.mp hd
      · rwa [List.mem_singleton.mp hd]
      · exact hrest d hd
    simp only [isRefChar, Bool.not_eq_true', Bool.or_eq_false_iff] at hd
    exact hd.1.1

/-- A ref without white space is a commit to the script exactly if it is one. -/
theorem sha40_iff {ref : List Char} (h : ∀ c ∈ ref, isSpace c = false) :
    sha40 ref = true ↔ ref.length = 40 ∧ ∀ c ∈ ref, isHex c = true := by
  -- a newline is white space, so `$` matches nowhere but at the end
  have hrest : ref.drop 40 ≠ ['\n'] := by
    intro hnl
    have hmem : '\n' ∈ ref := List.mem_of_mem_drop (hnl ▸ List.mem_singleton_self _)
    exact absurd (h _ hmem) (by decide)
  simp only [sha40, Bool.and_eq_true, Bool.or_eq_true, beq_iff_eq, List.all_eq_true, hrest,
    or_false, List.drop_eq_nil_iff, List.length_take]
  constructor
  · rintro ⟨⟨hlen, hhex⟩, hshort⟩
    rw [List.take_of_length_le hshort] at hhex
    exact ⟨by omega, hhex⟩
  · rintro ⟨hlen, hhex⟩
    rw [List.take_of_length_le (by omega)]
    exact ⟨⟨by omega, hhex⟩, by omega⟩

/-- **R1 and R4** find fault with what carries no commit. -/
theorem rootFailure_eq_none {text lib : List Char} {p : Pin} (hp : (lib, p) ∈ allPins text) :
    rootFailure lib p = none ↔ Pinned p := by
  unfold rootFailure Pinned
  cases href : p.ref with
  | none => simp
  | some ref =>
    have hsha := sha40_iff (isSpace_of_mem_ref hp href)
    dsimp only
    split
    next h => exact iff_of_true rfl ⟨ref, rfl, hsha.mp h⟩
    next h =>
      refine iff_of_false (Option.some_ne_none _) ?_
      rintro ⟨ref', heq, hright⟩
      cases heq
      exact h (hsha.mpr hright)

/-- **R2 and R3** find fault with what the root pins otherwise. -/
theorem disagreement_eq_none {message : List Char → Pin → Pin → String} {text lib : List Char}
    {p : Pin} : disagreement message (depsIn text) lib p = none ↔
      ∀ r, Seen text lib r → Agrees p r := by
  unfold disagreement
  constructor
  · intro h r hr
    -- the library is in the root, so the two were compared
    rw [lookup_depsIn.mpr hr] at h
    dsimp only at h
    split at h
    next => cases h
    next heq => exact Prod.mk.inj (not_not.mp heq)
  · intro h
    split
    next => rfl
    next r hr =>
      obtain ⟨howner, href⟩ := h r (lookup_depsIn.mp hr)
      rw [if_neg]
      rw [howner, href]
      exact not_not.mpr rfl

/-- For a file, with what the gate looks at in it. -/
theorem disagreements_eq_nil {message : Ini → List Char → Pin → Pin → String} {text : List Char}
    {ini : Ini} : disagreements message (depsIn text) ini = [] ↔
      ∀ lib p r, Seen ini.text lib p → Seen text lib r → Agrees p r := by
  rw [disagreements, List.filterMap_eq_nil_iff]
  constructor
  · intro h lib p r hp hr
    exact disagreement_eq_none.mp (h (lib, p) (mem_sorted.mpr hp)) r hr
  · intro h x hx
    exact disagreement_eq_none.mpr fun r hr => h x.1 x.2 r (mem_sorted.mp hx) hr

/-! ## The guarantee -/

/-- **Everything that the gate looks at is right.** -/
structure LooksRight (c : Checkout) (text : List Char) : Prop where
  /-- There is a dependency. -/
  found : allPins text ≠ []
  /-- In the root each one carries a commit. -/
  pinned : ∀ lib p, Seen text lib p → Pinned p
  /-- The scenarios agree with the root. -/
  scenarios : ∀ ini ∈ c.scenarios, ∀ lib p r, Seen ini.text lib p → Seen text lib r → Agrees p r
  /-- So does the tree that is fetched. -/
  inner : ∀ inis, c.libdeps.head? = some inis → ∀ ini ∈ inis, ∀ lib p r,
    Seen ini.text lib p → Seen text lib r → Agrees p r

/-- **What it overlooks is right too.** -/
structure OverlookedRight (c : Checkout) (text : List Char) : Prop where
  /-- In the root. -/
  pinned : ∀ lib p, (lib, p) ∈ allPins text → ¬ Seen text lib p → Pinned p
  /-- Between a scenario and the root. -/
  scenarios : ∀ ini ∈ c.scenarios, ∀ lib p r, (lib, p) ∈ allPins ini.text →
    (lib, r) ∈ allPins text → ¬ (Seen ini.text lib p ∧ Seen text lib r) → Agrees p r

/-- **Every dependency is checked**: in the root each one carries a commit, and the scenarios agree
with each one of the root. -/
def EveryPinRight (c : Checkout) : Prop :=
  ∀ text, c.root = some text → (∀ lib p, (lib, p) ∈ allPins text → Pinned p) ∧
    ∀ ini ∈ c.scenarios, ∀ lib p r, (lib, p) ∈ allPins ini.text → (lib, r) ∈ allPins text →
      Agrees p r

/-- Nothing is wrong if everything looks right. -/
theorem failures_eq_nil {c : Checkout} {text : List Char} (hfound : allPins text ≠ []) :
    failures c (depsIn text) = [] ↔ LooksRight c text := by
  have hinner : (c.libdeps.head?.getD []).flatMap (disagreements innerMessage (depsIn text)) = []
      ↔ ∀ inis, c.libdeps.head? = some inis → ∀ ini ∈ inis, ∀ lib p r,
          Seen ini.text lib p → Seen text lib r → Agrees p r := by
    cases c.libdeps.head? <;> simp [disagreements_eq_nil]
  rw [failures, List.append_eq_nil_iff, List.append_eq_nil_iff, hinner, List.flatMap_eq_nil_iff,
    List.filterMap_eq_nil_iff]
  constructor
  · rintro ⟨⟨hroot, hscenarios⟩, hinner⟩
    refine ⟨hfound, fun lib p hp => ?_, fun ini hini => ?_, hinner⟩
    · exact (rootFailure_eq_none hp.mem).mp (hroot (lib, p) (mem_sorted.mpr hp))
    · exact disagreements_eq_nil.mp (hscenarios ini hini)
  · rintro ⟨-, hroot, hscenarios, hinner⟩
    refine ⟨⟨fun ⟨lib, p⟩ hp => ?_, fun ini hini => ?_⟩, hinner⟩
    · have hseen := mem_sorted.mp hp
      exact (rootFailure_eq_none hseen.mem).mpr (hroot lib p hseen)
    · exact disagreements_eq_nil.mpr (hscenarios ini hini)

/-- **The gate passes** exactly when everything looks right. -/
theorem code_eq_zero {c : Checkout} :
    (main c).code = 0 ↔ ∃ text, c.root = some text ∧ LooksRight c text := by
  unfold main
  cases c.root with
  | none => simp [cannotRun]
  | some text =>
    -- the map is empty only if no line names a dependency
    have hentries : (depsIn text).entries = [] ↔ allPins text = [] := by
      rw [depsIn_eq, entries_fill_eq_nil, firstPins_eq_nil]
    simp only [Option.some.injEq, exists_eq_left', hentries]
    split
    next hnone => exact iff_of_false (by simp [cannotRun]) fun h => h.found hnone
    next hfound =>
      rw [← failures_eq_nil hfound]
      split <;> simp_all

/-- **The gate checks every dependency** if and only if, where everything that it looks at is right,
so is what it overlooks. -/
theorem every_pin_right_iff (c : Checkout) : ((main c).code = 0 → EveryPinRight c)
    ↔ ∀ text, c.root = some text → LooksRight c text → OverlookedRight c text := by
  constructor
  · intro h text hroot hlooks
    obtain ⟨hpinned, hagree⟩ := h (code_eq_zero.mpr ⟨text, hroot, hlooks⟩) text hroot
    exact ⟨fun lib p hp _ => hpinned lib p hp,
      fun ini hini lib p r hp hr _ => hagree ini hini lib p r hp hr⟩
  · intro h hcode text hroot
    obtain ⟨text', hroot', hlooks⟩ := code_eq_zero.mp hcode
    -- the run that passed has seen this root
    obtain rfl : text' = text := Option.some.inj (hroot'.symm.trans hroot)
    have hover := h text' hroot hlooks
    refine ⟨fun lib p hp => ?_, fun ini hini lib p r hp hr => ?_⟩
    · by_cases hseen : Seen text' lib p
      · exact hlooks.pinned lib p hseen
      · exact hover.pinned lib p hp hseen
    · by_cases hseen : Seen ini.text lib p ∧ Seen text' lib r
      · exact hlooks.scenarios ini hini lib p r hseen.1 hseen.2
      · exact hover.scenarios ini hini lib p r hp hr hseen

/-- A root that names a library twice, at first without a commit. -/
def namedTwice : List Char :=
  ("https://github.com/wet-bulb/microStore.git\n"
    ++ "https://github.com/wet-bulb/microStore.git#0123456789abcdef0123456789abcdef01234567").toList

/-- **A dependency without a commit passes** if a later line names the same library. -/
theorem passes_unpinned : ¬ ((main ⟨"platformio.ini", some namedTwice, [], []⟩).code = 0 →
    EveryPinRight ⟨"platformio.ini", some namedTwice, [], []⟩) := by
  intro h
  have hcode : (main ⟨"platformio.ini", some namedTwice, [], []⟩).code = 0 := by decide +kernel
  have hmem : ("microStore".toList, ⟨"wet-bulb".toList, none, 1⟩) ∈ allPins namedTwice := by
    decide +kernel
  obtain ⟨ref, href, -⟩ := (h hcode namedTwice rfl).1 _ _ hmem
  cases href

end Thicket.Scripts.CheckPins
