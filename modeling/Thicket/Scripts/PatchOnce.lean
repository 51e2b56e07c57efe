import Thicket.Scripts.PatchDeps

/-! # Every patch once

However builds fail and are repeated, and libraries are installed anew in between, a file holds the
installed text with the first few of its patches applied, each once; and after a build that goes
through, all of them. -/

namespace Thicket.Scripts.PatchDeps

open Substitute

/-! ## The patches of one file -/

/-- Some patches applied to a text, one after the other. -/
def patched (ps : List Patch) (text : Str) : Except Str Str :=
  ps.foldlM (fun text p => p.apply text) text

/-- A stamp as the patches write it, with a comma behind it. -/
def Patch.mark (p : Patch) : Str := p.stamp ++ [',']

/-- The stamp is in it. -/
theorem stamp_infix_mark (p : Patch) : p.stamp <:+: p.mark :=
  (List.prefix_append p.stamp [',']).isInfix

/-- **Patches that go together**: each leaves its mark, keeps the marks before it, and leaves no
stamp that comes after it. -/
structure Chain (ps : List Patch) : Prop where
  /-- The mark. -/
  marks : ∀ p ∈ ps, ∀ text text', p.apply text = .ok text' → p.mark <:+: text'
  /-- The marks that are there. -/
  keeps : ps.Pairwise fun p p' => ∀ text text', p'.apply text = .ok text' →
    p.mark <:+: text → p.mark <:+: text'
  /-- The stamps that are not there yet. -/
  avoids : ps.Pairwise fun p p' => ∀ text text', p.apply text = .ok text' →
    p'.stamp <:+: text' → p'.stamp <:+: text

/-- **A text on its way**: the first patches have been applied to the text `u`, and their stamps
are the ones that are there. -/
def Underway (ps : List Patch) (u text : Str) : Prop :=
  ∃ done todo, ps = done ++ todo ∧ patched done u = .ok text ∧
    (∀ p ∈ done, p.mark <:+: text) ∧ ∀ p ∈ todo, ¬ p.stamp <:+: text

/-- A stamp has the marker in it. -/
theorem marker_infix_stamp (p : Patch) : marker <:+: p.stamp :=
  (List.prefix_append marker (':' :: p.patchId)).isInfix

/-- A text as it is installed. -/
theorem underway_installed (ps : List Patch) {u : Str} (h : ¬ marker <:+: u) : Underway ps u u :=
  ⟨[], ps, (List.nil_append ps).symm, rfl, List.forall_mem_nil _,
    fun p _ hstamp => h ((marker_infix_stamp p).trans hstamp)⟩

/-- **One more patch.** -/
theorem Underway.apply {ps before after : List Patch} {p : Patch} {u text text' : Str}
    (h : Underway ps u text) (hchain : Chain ps) (hps : ps = before ++ p :: after)
    (hbefore : ∀ b ∈ before, b.stamp <:+: text) (hp : ¬ p.stamp <:+: text)
    (happly : p.apply text = .ok text') :
    Underway ps u text' ∧ ∀ b ∈ before ++ [p], b.stamp <:+: text' := by
  obtain ⟨done, todo, hsplit, hpatched, hdone, htodo⟩ := h
  -- what is done is what comes before
  obtain ⟨rfl, rfl⟩ : done = before ∧ todo = p :: after := by
    obtain ⟨t, rfl, ht⟩ | ⟨t, rfl, ht⟩ := List.append_eq_append_iff.mp (hps.symm.trans hsplit)
    · cases t with
      | nil => exact ⟨List.append_nil before, ht.symm⟩
      | cons q t =>
        obtain rfl := (List.cons.inj ht).1
        exact absurd ((stamp_infix_mark p).trans (hdone p (by simp))) hp
    · cases t with
      | nil => exact ⟨(List.append_nil done).symm, ht⟩
      | cons q t =>
        rw [ht] at htodo
        exact absurd (hbefore q (by simp)) (htodo q (by simp))
  subst hps
  have hkeeps := (List.pairwise_append.mp hchain.keeps).2.2
  have havoids := (List.pairwise_cons.mp (List.pairwise_append.mp hchain.avoids).2.1).1
  have hmarks : ∀ b ∈ done ++ [p], b.mark <:+: text' := by
    rw [List.forall_mem_append, List.forall_mem_singleton]
    exact ⟨fun b hb => hkeeps b hb p List.mem_cons_self text text' happly (hdone b hb),
      hchain.marks p (by simp) text text' happly⟩
  refine ⟨⟨done ++ [p], after, by simp, ?_, hmarks, fun q hq hstamp => ?_⟩,
    fun b hb => (stamp_infix_mark b).trans (hmarks b hb)⟩
  · rw [patched, List.foldlM_append, ← patched, hpatched]
    simp [happly, bind, Except.bind, pure, Except.pure]
  · exact htodo q (List.mem_cons_of_mem p hq) (havoids q hq text text' happly hstamp)

/-- With every stamp there, every patch has been applied. -/
theorem Underway.patched_eq {ps : List Patch} {u text : Str} (h : Underway ps u text)
    (hall : ∀ p ∈ ps, p.stamp <:+: text) : patched ps u = .ok text := by
  obtain ⟨done, todo, rfl, hpatched, -, htodo⟩ := h
  cases todo with
  | nil => rwa [List.append_nil]
  | cons p todo => exact absurd (hall p (by simp)) (htodo p List.mem_cons_self)

/-! ## One build -/

/-- The patches of a file. -/
def patchesOf (ps : List Patch) (q : Path) : List Patch := ps.filter fun p => p.Matches q

/-- **The files on their way**, from the texts that were installed. -/
def Sound (ps : List Patch) (installed tree : Tree) : Prop :=
  ∀ q, installed q = none ∧ tree q = none ∨
    ∃ u text, installed q = some u ∧ tree q = some text ∧ Underway (patchesOf ps q) u text

/-- Every file that is there has the stamps of those of these patches that are for it. -/
def Stamped (ps : List Patch) (tree : Tree) (q : Path) : Prop :=
  ∀ text ∈ tree q, ∀ p ∈ ps, p.Matches q → p.stamp <:+: text

variable {paths : List Path} {ps before after : List Patch} {p : Patch} {installed tree : Tree}

/-- The files are those that were installed. -/
theorem Sound.isSome_eq (h : Sound ps installed tree) (q : Path) :
    (tree q).isSome = (installed q).isSome := by
  obtain ⟨hi, ht⟩ | ⟨u, text, hi, ht, -⟩ := h q
  · rw [hi, ht]
  · rw [hi, ht, Option.isSome_some, Option.isSome_some]

/-- A file of a sound tree. -/
theorem Sound.underway (h : Sound ps installed tree) {q : Path} {text : Str}
    (ht : tree q = some text) :
    ∃ u, installed q = some u ∧ Underway (patchesOf ps q) u text := by
  obtain ⟨-, hnone⟩ | ⟨u, text', hi, hsome, hway⟩ := h q
  · rw [ht] at hnone
    cases hnone
  · obtain rfl := Option.some.inj (ht.symm.trans hsome)
    exact ⟨u, hi, hway⟩

/-- Stamps of two lists of patches. -/
theorem stamped_append {q : Path} :
    Stamped (before ++ after) tree q ↔ Stamped before tree q ∧ Stamped after tree q := by
  simp only [Stamped, List.forall_mem_append]
  exact ⟨fun h => ⟨fun t ht => (h t ht).1, fun t ht => (h t ht).2⟩,
    fun h t ht => ⟨h.1 t ht, h.2 t ht⟩⟩

/-- **One file patched**: the tree stays sound, and the stamps stay. -/
theorem Sound.update (h : Sound ps installed tree) (hchain : ∀ q, Chain (patchesOf ps q))
    (hps : ps = before ++ p :: after) {q : Path} {text text' : Str} (hq : p.Matches q)
    (htext : tree q = some text) (hbefore : Stamped before tree q) (hp : ¬ p.stamp <:+: text)
    (happly : p.apply text = .ok text') :
    Sound ps installed (Function.update tree q (some text')) ∧
      Stamped (before ++ [p]) (Function.update tree q (some text')) q := by
  obtain ⟨u, hu, hway⟩ := h.underway htext
  have hsplit : patchesOf ps q = patchesOf before q ++ p :: patchesOf after q := by
    rw [hps, patchesOf, List.filter_append, List.filter_cons, if_pos (decide_eq_true hq)]
    rfl
  have hstamps : ∀ b ∈ patchesOf before q, b.stamp <:+: text := by
    intro b hb
    obtain ⟨hmem, hmatches⟩ := List.mem_filter.mp hb
    exact hbefore text htext b hmem (of_decide_eq_true hmatches)
  obtain ⟨hway', hstamps'⟩ := hway.apply (hchain q) hsplit hstamps hp happly
  constructor
  · intro q'
    by_cases hqq : q' = q
    · subst hqq
      exact .inr ⟨u, text', hu, by rw [Function.update_self], hway'⟩
    · rw [Function.update_of_ne hqq]
      exact h q'
  · intro t ht b hb hmatches
    rw [Function.update_self] at ht
    obtain rfl := Option.some.inj ht
    refine hstamps' b ?_
    rw [List.mem_append] at hb ⊢
    exact hb.imp_left fun hmem => List.mem_filter.mpr ⟨hmem, decide_eq_true hmatches⟩

/-- Patching another file does not touch the stamps of this one. -/
theorem stamped_update_of_ne {q q' : Path} (hne : q' ≠ q) (text : Option Str) :
    Stamped ps (Function.update tree q text) q' ↔ Stamped ps tree q' := by
  rw [Stamped, Function.update_of_ne hne]
  rfl

/-- **A patch over the copies of a file**, as far as it gets. -/
theorem patchTargets_spec (hchain : ∀ q, Chain (patchesOf ps q)) (hps : ps = before ++ p :: after)
    (qs : List Path) {r : Report} (hsound : Sound ps installed r.tree)
    (hqs : ∀ q ∈ qs, p.Matches q ∧ (r.tree q).isSome ∧ q ∈ paths)
    (hbefore : ∀ q ∈ paths, Stamped before r.tree q) :
    Sound ps installed (patchTargets p qs r).1.tree ∧
      (∀ q ∈ paths, Stamped before (patchTargets p qs r).1.tree q) ∧
      ((patchTargets p qs r).2 = none → ∀ q ∈ paths, q ∈ qs ∨ Stamped [p] r.tree q →
        Stamped [p] (patchTargets p qs r).1.tree q) := by
  induction qs generalizing r with
  | nil => exact ⟨hsound, hbefore, fun _ q _ h => h.resolve_left (List.not_mem_nil)⟩
  | cons q qs ih =>
    rw [List.forall_mem_cons] at hqs
    obtain ⟨⟨hmatches, hsome, hq⟩, hqs⟩ := hqs
    obtain ⟨text, htext⟩ := Option.isSome_iff_exists.mp hsome
    rw [patchTargets, htext, Option.getD_some]
    split
    next hstamp =>
      -- skipped: the stamp is there
      obtain ⟨hs, hb, hp⟩ :=
        ih (r := { r with skipped := r.skipped ++ [(q, p.patchId)] }) hsound hqs
        hbefore
      refine ⟨hs, hb, fun hok q' hq' h => hp hok q' hq' ?_⟩
      rcases h with h | h
      · rcases List.mem_cons.mp h with rfl | h
        · refine .inr fun t ht b hb _ => ?_
          obtain rfl := Option.some.inj (htext.symm.trans ht)
          rwa [List.mem_singleton.mp hb]
        · exact .inl h
      · exact .inr h
    next hstamp =>
      cases happly : p.apply text with
      | error expected => exact ⟨hsound, hbefore, fun h => nomatch h⟩
      | ok text' =>
        obtain ⟨hsound', hstamped'⟩ :=
          hsound.update hchain hps hmatches htext (hbefore q hq) hstamp happly
        have hsplit := stamped_append.mp hstamped'
        have hbefore' : ∀ q' ∈ paths,
            Stamped before (Function.update r.tree q (some text')) q' := by
          intro q' hq'
          by_cases hne : q' = q
          · exact hne ▸ hsplit.1
          · exact (stamped_update_of_ne hne _).mpr (hbefore q' hq')
        have hqs' : ∀ q' ∈ qs, p.Matches q' ∧
            (Function.update r.tree q (some text') q').isSome ∧ q' ∈ paths := by
          intro q' hq'
          obtain ⟨hm, hsome', hin⟩ := hqs q' hq'
          refine ⟨hm, ?_, hin⟩
          by_cases hne : q' = q
          · rw [hne, Function.update_self]
            rfl
          · rwa [Function.update_of_ne hne]
        obtain ⟨hs, hb, hp⟩ := ih (r := { r with
          tree := Function.update r.tree q (some text')
          applied := r.applied ++ [(q, p.patchId)] }) hsound' hqs' hbefore'
        refine ⟨hs, hb, fun hok q' hq' h => hp hok q' hq' ?_⟩
        by_cases hne : q' = q
        · exact .inr (hne ▸ hsplit.2)
        · rcases h with h | h
          · exact .inl ((List.mem_cons.mp h).resolve_left hne)
          · exact .inr ((stamped_update_of_ne hne _).mpr h)

/-- **A patch**, as far as it gets; one that goes through leaves its stamp on every file it is
for. -/
theorem patch_spec (hchain : ∀ q, Chain (patchesOf ps q)) (hps : ps = before ++ p :: after)
    {r : Report} (hsound : Sound ps installed r.tree)
    (hbefore : ∀ q ∈ paths, Stamped before r.tree q) :
    Sound ps installed (patch paths p r).1.tree ∧
      ((patch paths p r).2 = none →
        ∀ q ∈ paths, Stamped (before ++ [p]) (patch paths p r).1.tree q) := by
  have hqs : ∀ q ∈ targets paths r.tree p, p.Matches q ∧ (r.tree q).isSome ∧ q ∈ paths := by
    intro q hq
    obtain ⟨hin, hcond⟩ := List.mem_filter.mp hq
    obtain ⟨hsome, hmatches⟩ := Bool.and_eq_true_iff.mp hcond
    exact ⟨of_decide_eq_true hmatches, hsome, hin⟩
  have hreached : ∀ q ∈ paths, q ∈ targets paths r.tree p ∨ Stamped [p] r.tree q := by
    intro q hq
    by_cases hin : q ∈ targets paths r.tree p
    · exact .inl hin
    · refine .inr fun t ht b hb hmatches => absurd (List.mem_filter.mpr ⟨hq, ?_⟩) hin
      obtain rfl := List.mem_singleton.mp hb
      rw [Option.mem_def.mp ht, decide_eq_true hmatches]
      rfl
  obtain ⟨hs, hb, hp⟩ := patchTargets_spec hchain hps (targets paths r.tree p) hsound hqs hbefore
  unfold patch
  cases htargets : targets paths r.tree p with
  | nil => exact ⟨hsound, fun h => nomatch h⟩
  | cons q qs =>
    rw [htargets] at hs hb hp hreached
    exact ⟨hs, fun hok q' hq' => stamped_append.mpr ⟨hb q' hq', hp hok q' hq' (hreached q' hq')⟩⟩

/-- **The patches in order.** -/
theorem patchAll_spec (hchain : ∀ q, Chain (patchesOf ps q)) (hps : ps = before ++ after)
    {r : Report} (hsound : Sound ps installed r.tree)
    (hbefore : ∀ q ∈ paths, Stamped before r.tree q) :
    Sound ps installed (patchAll paths after r).1.tree ∧
      ((patchAll paths after r).2 = none →
        ∀ q ∈ paths, Stamped ps (patchAll paths after r).1.tree q) := by
  induction after generalizing before r with
  | nil =>
    rw [List.append_nil] at hps
    exact ⟨hsound, fun _ => hps ▸ hbefore⟩
  | cons p after ih =>
    obtain ⟨hs, hp⟩ := patch_spec hchain hps hsound hbefore
    rw [patchAll]
    split
    next r' failure heq =>
      rw [heq] at hs
      exact ⟨hs, fun h => nomatch h⟩
    next r' heq =>
      rw [heq] at hs hp
      have hps' : ps = (before ++ [p]) ++ after := by rw [hps]; simp
      exact ih hps' hs (hp rfl)

/-! ## A build again -/

/-- **Nothing is left to do** on files with every stamp. -/
theorem patchTargets_stamped (qs : List Path) (r : Report)
    (hqs : ∀ q ∈ qs, p.Matches q ∧ (r.tree q).isSome ∧ Stamped [p] r.tree q) :
    ∃ skipped, patchTargets p qs r = ({ r with skipped := skipped }, none) := by
  induction qs generalizing r with
  | nil => exact ⟨r.skipped, rfl⟩
  | cons q qs ih =>
    rw [List.forall_mem_cons] at hqs
    obtain ⟨⟨hmatches, hsome, hstamped⟩, hqs⟩ := hqs
    obtain ⟨text, htext⟩ := Option.isSome_iff_exists.mp hsome
    have hstamp : p.stamp <:+: text := hstamped text htext p (List.mem_singleton_self p) hmatches
    rw [patchTargets, htext, Option.getD_some]
    rw [if_pos hstamp]
    exact ih { r with skipped := r.skipped ++ [(q, p.patchId)] } hqs

/-- What the patches look for is what is installed. -/
theorem Sound.targets_eq (h : Sound ps installed tree) (p : Patch) :
    targets paths tree p = targets paths installed p := by
  refine List.filter_congr fun q _ => ?_
  rw [h.isSome_eq]

/-- A patch that goes through has found a file. -/
theorem targets_ne_nil_of_patch {r : Report} (h : (patch paths p r).2 = none) :
    targets paths r.tree p ≠ [] := by
  intro hnil
  rw [patch, hnil] at h
  cases h

/-- A build that goes through has found every file. -/
theorem targets_ne_nil (hchain : ∀ q, Chain (patchesOf ps q)) (hps : ps = before ++ after)
    {r : Report} (hsound : Sound ps installed r.tree)
    (hbefore : ∀ q ∈ paths, Stamped before r.tree q) (hok : (patchAll paths after r).2 = none) :
    ∀ p ∈ after, targets paths installed p ≠ [] := by
  induction after generalizing before r with
  | nil => exact List.forall_mem_nil _
  | cons p after ih =>
    obtain ⟨hs, hp⟩ := patch_spec hchain hps hsound hbefore
    rw [patchAll] at hok
    split at hok
    next => cases hok
    next r' heq =>
      rw [heq] at hs hp
      rw [List.forall_mem_cons]
      have hps' : ps = (before ++ [p]) ++ after := by rw [hps]; simp
      refine ⟨?_, ih hps' hs (hp rfl) hok⟩
      rw [← hsound.targets_eq]
      exact targets_ne_nil_of_patch (by rw [heq])

/-- **A build again changes nothing**, where every stamp is there. -/
theorem patchAll_stamped (after : List Patch) (r : Report)
    (htargets : ∀ p ∈ after, targets paths r.tree p ≠ [])
    (hstamped : ∀ q ∈ paths, Stamped after r.tree q) :
    ∃ skipped, patchAll paths after r = ({ r with skipped := skipped }, none) := by
  induction after generalizing r with
  | nil => exact ⟨r.skipped, rfl⟩
  | cons p after ih =>
    rw [List.forall_mem_cons] at htargets
    have hqs : ∀ q ∈ targets paths r.tree p,
        p.Matches q ∧ (r.tree q).isSome ∧ Stamped [p] r.tree q := by
      intro q hq
      obtain ⟨hin, hcond⟩ := List.mem_filter.mp hq
      obtain ⟨hsome, hmatches⟩ := Bool.and_eq_true_iff.mp hcond
      refine ⟨of_decide_eq_true hmatches, hsome, fun t ht b hb => hstamped q hin t ht b ?_⟩
      rw [List.mem_singleton.mp hb]
      exact List.mem_cons_self
    obtain ⟨skipped, hskipped⟩ := patchTargets_stamped (targets paths r.tree p) r hqs
    have hpatch : patch paths p r = ({ r with skipped := skipped }, none) := by
      unfold patch
      split
      next hnil => exact absurd hnil htargets.1
      next q qs hcons => rw [← hcons, hskipped]
    rw [patchAll, hpatch]
    exact ih { r with skipped := skipped } htargets.2
      fun q hq t ht b hb => hstamped q hq t ht b (List.mem_cons_of_mem p hb)

/-! ## The patches of the repository go together -/

/-- Replacing what a word is apart from keeps the word. -/
theorem infix_substitute {s : Str} {rs : List Replacement} (h : ∀ r ∈ rs, Apart r.old s)
    {text text' : Str} (hsub : substitute rs text = .ok text') (hs : s <:+: text) :
    s <:+: text' := by
  induction rs generalizing text with
  | nil =>
    obtain rfl := Except.ok.inj hsub
    exact hs
  | cons r rs ih =>
    rw [List.forall_mem_cons] at h
    rw [substitute, List.foldlM_cons] at hsub
    split at hsub
    · exact ih h.2 hsub (infix_replace h.1 r.old_ne_nil hs)
    · cases hsub

/-- The first replacement puts a word in that the others keep. -/
theorem infix_substitute_cons {s : Str} {r : Replacement} {rs : List Replacement}
    (hnew : s <:+: r.new) (h : ∀ r ∈ rs, Apart r.old s) {text text' : Str}
    (hsub : substitute (r :: rs) text = .ok text') : s <:+: text' := by
  rw [substitute, List.foldlM_cons] at hsub
  split at hsub
  next hin => exact infix_substitute h hsub (hnew.trans (new_infix_replace r.old_ne_nil hin))
  next => cases hsub

/-- What a patch makes of a text. -/
theorem Patch.apply_eq_ok {text text' : Str} (h : p.apply text = .ok text') :
    ∃ replaced, substitute p.replacements text = .ok replaced ∧
      text' = p.insertAtTop.getD [] ++ replaced := by
  unfold Patch.apply at h
  cases hsub : substitute p.replacements text with
  | error e => simp [hsub, bind, Except.bind] at h
  | ok replaced =>
    simp only [hsub, bind, Except.bind] at h
    split at h
    · cases h
    · exact ⟨replaced, rfl, (Except.ok.inj h).symm⟩

/-- The words of a line are in the lines. -/
theorem infix_unlines_of_mem {s l : Str} {ls : List Str} (hl : l ∈ ls) (hs : s <:+: l) :
    s <:+: unlines ls := by
  obtain ⟨before, after, rfl⟩ := List.append_of_mem hl
  have hsplit : unlines (before ++ l :: after) = unlines before ++ l ++ '\n' :: unlines after := by
    simp [unlines]
  exact hs.trans (hsplit ▸ List.infix_append _ _ _)

/-- A word without an end of line is in one of the lines, or behind them. -/
theorem infix_of_unlines {s : Str} (hend : '\n' ∉ s) {ls : List Str} {text : Str}
    (h : s <:+: unlines ls ++ text) : (∃ l ∈ ls, s <:+: l) ∨ s <:+: text := by
  induction ls with
  | nil => exact .inr h
  | cons l ls ih =>
    have hsplit : unlines (l :: ls) ++ text = l ++ '\n' :: (unlines ls ++ text) := by
      simp [unlines]
    rw [hsplit] at h
    obtain hl | hrest := infix_append_of_notMem hend h
    · exact .inl ⟨l, List.mem_cons_self, hl⟩
    · exact (ih hrest).imp_left fun ⟨l', hl', hin⟩ => ⟨l', List.mem_cons_of_mem l hl', hin⟩

/-- The prologue carries its mark. -/
theorem mark_arduinoMacros (file : String) :
    (arduinoMacros file).mark <:+: arduinoMacroPrologue := by
  refine infix_unlines_of_mem List.mem_cons_self ?_
  exact ⟨"// ".toList, " Arduino.h defines abs()/round()".toList, rfl⟩

/-- So does the shim. -/
theorem mark_noGthreads : noGthreads.mark <:+: mutexShim := by
  refine infix_unlines_of_mem
    (List.mem_cons_of_mem _ (List.mem_cons_of_mem _ List.mem_cons_self)) ?_
  exact ⟨"// ".toList, " this toolchain (arm-none-eabi GCC 7.2.1".toList, rfl⟩

/-- A file with the prologue. -/
theorem marks_arduinoMacros (file : String) {text text' : Str}
    (h : (arduinoMacros file).apply text = .ok text') : (arduinoMacros file).mark <:+: text' := by
  obtain ⟨replaced, -, rfl⟩ := Patch.apply_eq_ok h
  exact (mark_arduinoMacros file).trans (List.prefix_append arduinoMacroPrologue replaced).isInfix

/-- The stamper's shim carries its mark, and the other replacements keep it. -/
theorem marks_noGthreads {text text' : Str} (h : noGthreads.apply text = .ok text') :
    noGthreads.mark <:+: text' := by
  obtain ⟨replaced, hsub, rfl⟩ := Patch.apply_eq_ok h
  have hkeep : ∀ r ∈ noGthreads.replacements.tail, Apart r.old noGthreads.mark := by
    decide +kernel
  exact infix_substitute_cons mark_noGthreads hkeep hsub

/-- The packer. -/
theorem marks_packerPublic {text text' : Str} (h : packerPublic.apply text = .ok text') :
    packerPublic.mark <:+: text' := by
  obtain ⟨replaced, hsub, rfl⟩ := Patch.apply_eq_ok h
  exact infix_substitute_cons (by decide +kernel) (List.forall_mem_nil _) hsub

/-- The unpacker. -/
theorem marks_unpackerPublic {text text' : Str} (h : unpackerPublic.apply text = .ok text') :
    unpackerPublic.mark <:+: text' := by
  obtain ⟨replaced, hsub, rfl⟩ := Patch.apply_eq_ok h
  exact infix_substitute_cons (by decide +kernel) (List.forall_mem_nil _) hsub

/-- The shim does not touch the prologue's mark. -/
theorem noGthreads_keeps (file : String) {text text' : Str} (h : noGthreads.apply text = .ok text')
    (hmark : (arduinoMacros file).mark <:+: text) : (arduinoMacros file).mark <:+: text' := by
  obtain ⟨replaced, hsub, rfl⟩ := Patch.apply_eq_ok h
  have hkeep : ∀ r ∈ noGthreads.replacements,
      Apart r.old (marker ++ ':' :: "arduino-macros".toList ++ [',']) := by
    decide +kernel
  exact infix_substitute hkeep hsub hmark

/-- The prologue does not stamp the file for the shim. -/
theorem arduinoMacros_avoids (file : String) {text text' : Str}
    (h : (arduinoMacros file).apply text = .ok text') (hstamp : noGthreads.stamp <:+: text') :
    noGthreads.stamp <:+: text := by
  obtain ⟨replaced, hsub, rfl⟩ := Patch.apply_eq_ok h
  obtain rfl := Except.ok.inj hsub
  refine (infix_of_unlines (by decide +kernel) hstamp).resolve_left fun ⟨l, hl, hin⟩ => ?_
  -- every line of the prologue misses a letter of the stamp
  have hmiss : ∀ l ∈ arduinoMacroLines, 'g' ∉ l ∨ '-' ∉ l := by decide +kernel
  have hg : 'g' ∈ noGthreads.stamp := by decide +kernel
  have hdash : '-' ∈ noGthreads.stamp := by decide +kernel
  exact (hmiss l hl).elim (fun h => h (hin.subset hg)) fun h => h (hin.subset hdash)

/-- A single patch that leaves its mark. -/
theorem chain_singleton (h : ∀ text text', p.apply text = .ok text' → p.mark <:+: text') :
    Chain [p] :=
  ⟨by simpa using h, List.pairwise_singleton _ _, List.pairwise_singleton _ _⟩

/-- The two patches of the stamper. -/
theorem chain_stamper : Chain [arduinoMacros "LXStamper.cpp", noGthreads] := by
  refine ⟨?_, ?_, ?_⟩
  · simp only [List.forall_mem_cons]
    exact ⟨fun _ _ => marks_arduinoMacros _, fun _ _ => marks_noGthreads, List.forall_mem_nil _⟩
  · rw [List.pairwise_pair]
    exact fun _ _ => noGthreads_keeps _
  · rw [List.pairwise_pair]
    exact fun _ _ => arduinoMacros_avoids _

/-- Fewer patches go together too. -/
theorem Chain.sublist {ps' : List Patch} (h : Chain ps) (hsub : ps'.Sublist ps) : Chain ps' :=
  ⟨fun q hq => h.marks q (hsub.subset hq), h.keeps.sublist hsub, h.avoids.sublist hsub⟩

/-- A file with the prologue alone. -/
theorem chain_arduinoMacros (file : String) : Chain [arduinoMacros file] :=
  chain_singleton fun _ _ => marks_arduinoMacros file

/-- The patches of one name. -/
theorem chain_named (relpath : Str) : Chain (patches.filter fun p => p.relpath = relpath) := by
  by_cases hin : relpath ∈ patches.map Patch.relpath
  · obtain ⟨p, hp, rfl⟩ := List.mem_map.mp hin
    have hall : ∀ p ∈ patches, Chain (patches.filter fun p' => p'.relpath = p.relpath) := by
      simp only [patches, List.map_cons, List.map_nil, List.cons_append, List.nil_append,
        List.forall_mem_cons]
      refine ⟨?_, ?_, ?_, ?_, ?_, ?_, ?_, ?_, List.forall_mem_nil _⟩
      · exact chain_arduinoMacros "LXMRouter.cpp"
      · exact chain_arduinoMacros "LXMessage.cpp"
      · exact chain_stamper
      · exact chain_arduinoMacros "MessageStore.cpp"
      · exact chain_arduinoMacros "PropagationNodeManager.cpp"
      · exact chain_stamper
      · exact chain_singleton fun _ _ => marks_packerPublic
      · exact chain_singleton fun _ _ => marks_unpackerPublic
    exact hall p hp
  · have hnil : (patches.filter fun p => p.relpath = relpath) = [] := by
      refine List.filter_eq_nil_iff.mpr fun p hp hname => hin ?_
      exact List.mem_map.mpr ⟨p, hp, of_decide_eq_true hname⟩
    rw [hnil]
    exact ⟨List.forall_mem_nil _, .nil, .nil⟩

/-- **The patches of a file go together.** -/
theorem chain_patchesOf (q : Path) : Chain (patchesOf patches q) := by
  refine (chain_named q.relpath).sublist (List.monotone_filter_right patches fun p hp => ?_)
  exact decide_eq_true (of_decide_eq_true hp).2.symm

/-! ## Histories -/

/-- What happens to the files. -/
inductive Event where
  /-- A file is installed, over one that is there or not. -/
  | install (q : Path) (text : Str)
  /-- A file is removed. -/
  | remove (q : Path)
  /-- The script runs. -/
  | invoke

/-- The files, and the texts that they were installed with. -/
structure Workspace where
  /-- The files. -/
  tree : Tree := fun _ => none
  /-- The installed texts. -/
  installed : Tree := fun _ => none

/-- One event. -/
def Event.step (paths : List Path) (s : Workspace) : Event → Workspace
  | .install q text =>
      { tree := Function.update s.tree q (some text)
        installed := Function.update s.installed q (some text) }
  | .remove q =>
      { tree := Function.update s.tree q none, installed := Function.update s.installed q none }
  | .invoke => { s with tree := (build paths patches s.tree).1.tree }

/-- What is installed has never been patched. -/
def Event.Fresh : Event → Prop
  | .install _ text => ¬ marker <:+: text
  | _ => True

/-- A file that is installed or removed. -/
theorem Sound.set (h : Sound ps installed tree) (q : Path) (content : Option Str)
    (hfresh : ∀ u ∈ content, ¬ marker <:+: u) :
    Sound ps (Function.update installed q content) (Function.update tree q content) := by
  intro q'
  by_cases hqq : q' = q
  · subst hqq
    rw [Function.update_self, Function.update_self]
    cases content with
    | none => exact .inl ⟨rfl, rfl⟩
    | some u => exact .inr ⟨u, u, rfl, rfl, underway_installed _ (hfresh u rfl)⟩
  · rw [Function.update_of_ne hqq, Function.update_of_ne hqq]
    exact h q'

/-- Nothing is stamped for no patch. -/
theorem stamped_nil (tree : Tree) (q : Path) : Stamped [] tree q := fun _ _ _ hp => nomatch hp

/-- **A build** of a sound tree leaves it sound; one that goes through leaves every stamp. -/
theorem Sound.build (h : Sound patches installed tree) (paths : List Path) :
    Sound patches installed (build paths patches tree).1.tree ∧
      ((build paths patches tree).2 = none →
        ∀ q ∈ paths, Stamped patches (build paths patches tree).1.tree q) :=
  patchAll_spec chain_patchesOf (List.nil_append patches).symm h fun q _ => stamped_nil tree q

/-- The files are on their way after any history. -/
theorem sound_run (paths : List Path) {events : List Event} (hfresh : ∀ e ∈ events, e.Fresh) :
    Sound patches (Runs.run (Event.step paths) {} events).installed
      (Runs.run (Event.step paths) {} events).tree := by
  have halong : Runs.Along (Event.step paths) (fun _ e => e.Fresh) {} events :=
    Runs.along_of_forall (fun _ e he => hfresh e he) _
  refine halong.invariant (fun s => Sound patches s.installed s.tree) (fun s e hs he => ?_)
    fun _ => .inl ⟨rfl, rfl⟩
  cases e with
  | install q text =>
    refine hs.set q (some text) fun u hu => ?_
    obtain rfl := Option.some.inj hu
    exact he
  | remove q => exact hs.set q none fun _ hu => nomatch hu
  | invoke => exact (hs.build paths).1

/-- **Every patch once.** After any history of installs, removals and builds, also of builds that
stopped half way, a file is the text it was installed with, and the first few of its patches
applied to it. A build that goes through then leaves every file with all of its patches applied,
each once and in order, and a build again finds nothing to do. -/
theorem patches_once (paths : List Path) {events : List Event} (hfresh : ∀ e ∈ events, e.Fresh) :
    (∀ q u, (Runs.run (Event.step paths) {} events).installed q = some u →
      ∃ done text, done <+: patchesOf patches q ∧ patched done u = .ok text ∧
        (Runs.run (Event.step paths) {} events).tree q = some text) ∧
    ∀ r, build paths patches (Runs.run (Event.step paths) {} events).tree = (r, none) →
      (∀ q ∈ paths, ∀ u, (Runs.run (Event.step paths) {} events).installed q = some u →
        ∃ text, r.tree q = some text ∧ patched (patchesOf patches q) u = .ok text) ∧
      ∃ skipped, build paths patches r.tree = ({ tree := r.tree, skipped := skipped }, none) := by
  have hsound := sound_run paths hfresh
  generalize Runs.run (Event.step paths) {} events = s at hsound
  refine ⟨fun q u hu => ?_, fun r hr => ?_⟩
  · obtain ⟨hnone, -⟩ | ⟨u', text, hu', htext, done, todo, hsplit, hpatched, -⟩ := hsound q
    · rw [hu] at hnone
      cases hnone
    · obtain rfl := Option.some.inj (hu.symm.trans hu')
      exact ⟨done, text, ⟨todo, hsplit.symm⟩, hpatched, htext⟩
  · obtain ⟨hsound', hstamped⟩ := hsound.build paths
    rw [hr] at hsound' hstamped
    refine ⟨fun q hq u hu => ?_, ?_⟩
    · obtain ⟨hnone, -⟩ | ⟨u', text, hu', htext, hway⟩ := hsound' q
      · rw [hu] at hnone
        cases hnone
      · obtain rfl := Option.some.inj (hu.symm.trans hu')
        refine ⟨text, htext, hway.patched_eq fun p hp => ?_⟩
        obtain ⟨hmem, hmatches⟩ := List.mem_filter.mp hp
        exact hstamped rfl q hq text htext p hmem (of_decide_eq_true hmatches)
    · have hfound : ∀ p ∈ patches, targets paths s.installed p ≠ [] :=
        targets_ne_nil chain_patchesOf (List.nil_append patches).symm hsound
          (fun q _ => stamped_nil s.tree q) (congrArg Prod.snd hr)
      exact patchAll_stamped patches { tree := r.tree }
        (fun p hp => hsound'.targets_eq p ▸ hfound p hp) (hstamped rfl)

/-- A file of the LXMF library. -/
def routerFile : Path := ⟨"microLXMF".toList, "src/LXMF/LXMRouter.cpp".toList⟩

/-- It is installed, the script runs and finds other files missing, and it runs again. -/
theorem patches_once_router : ∃ done text, done <+: patchesOf patches routerFile ∧
    patched done "#include <mutex>".toList = .ok text ∧
    (Runs.run (Event.step [routerFile]) {}
      [.install routerFile "#include <mutex>".toList, .invoke, .invoke]).tree routerFile
        = some text := by
  have hfresh : ∀ e ∈ [Event.install routerFile "#include <mutex>".toList, .invoke, .invoke],
      e.Fresh := by
    simp only [List.forall_mem_cons]
    exact ⟨by show ¬ marker <:+: "#include <mutex>".toList; decide +kernel, trivial, trivial,
      List.forall_mem_nil _⟩
  refine (patches_once [routerFile] hfresh).1 routerFile "#include <mutex>".toList ?_
  show Function.update ({} : Workspace).installed routerFile (some "#include <mutex>".toList)
    routerFile = _
  rw [Function.update_self]

end Thicket.Scripts.PatchDeps
