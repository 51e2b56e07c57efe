import Thicket.Base.Stack
import Thicket.Desktop.Browser

/-! # Navigation

What holds between the commands of a session: the page on the screen and the pages on the stack
scroll within their heights, so `recompose` never composes at an offset that it then clamps, and
the comparison with `_last_scroll` only ever saves a pass. -/

namespace Thicket.Desktop

open Thicket.Lcd Thicket.Page

/-! ## Scrolling -/

/-- How far a page of a height scrolls. -/
def maxScroll (height : UInt16) : Nat := height.toNat - lcdHeight

/-- A clamped scroll stays below the end. -/
theorem clampScroll_le (s : Int) (height : UInt16) :
    (clampScroll s height).toNat ≤ maxScroll height := by
  have hh := height.toNat_lt
  rw [clampScroll, maxScroll, UInt16.toNat_ofNat']
  refine (Nat.mod_le _ _).trans ?_
  split_ifs <;> omega

/-- A scroll that is in range is not changed. -/
theorem clampScroll_of_le {s height : UInt16} (h : s.toNat ≤ maxScroll height) :
    clampScroll s.toNat height = s := by
  have hs := s.toNat_lt
  rw [maxScroll] at h
  have hmax : ¬ max 0 ((height.toNat : Int) - lcdHeight) < s.toNat := by omega
  rw [clampScroll, if_neg (show ¬ (s.toNat : Int) < 0 by omega), if_neg hmax, Int.toNat_natCast,
    UInt16.ofNat_toNat]

variable (w : World)

/-- The height of a page, composed where it is. -/
def World.heightOf (p : PageState) : UInt16 := (w.frameOf p.src p.scroll).height

/-- The height of a source does not depend on the scroll. -/
abbrev World.Fixed (src : Str) : Prop := HeightFixed w.options w.parser w.tbuf src

/-- Every page of the disk is as high at every scroll. -/
def World.FixedDisk : Prop := ∀ path src, w.disk.readFile path = some src → w.Fixed src

/-- **A page that is held as it is shown**: it is as high at every scroll, and it scrolls within
its height. -/
structure World.Kept (p : PageState) : Prop where
  /-- The height. -/
  fixed : w.Fixed p.src
  /-- The scroll. -/
  scroll_le : p.scroll.toNat ≤ maxScroll (w.heightOf p)
  /-- The focus is an index or `-1`. -/
  focus_ge : -1 ≤ p.focus

variable {w}

/-- A page that is shown from its top. -/
theorem World.Kept.top {src : Str} (h : w.Fixed src) (address dir : Str) :
    w.Kept { src := src, address := address, dir := dir } := ⟨h, Nat.zero_le _, le_refl (-1)⟩

/-- Another focus. -/
theorem World.Kept.setFocus {p : PageState} (h : w.Kept p) {i : Int} (hi : -1 ≤ i) :
    w.Kept { p with focus := i } := ⟨h.fixed, h.scroll_le, hi⟩

/-- The same source, address, directory and scroll. -/
structure PageState.Same (p q : PageState) : Prop where
  /-- The source. -/
  src_eq : p.src = q.src
  /-- The address. -/
  address_eq : p.address = q.address
  /-- The directory. -/
  dir_eq : p.dir = q.dir
  /-- The scroll. -/
  scroll_eq : p.scroll = q.scroll

/-! ## Between the commands -/

variable (w) in
/-- **What a command leaves** to `recompose`. -/
structure Browser.Sound (b : Browser) : Prop where
  /-- The page. -/
  cur : w.Kept b.cur
  /-- The pages that were left. -/
  stack : ∀ p ∈ b.stack, w.Kept p

variable (w) in
/-- **What `recompose` leaves** to the next command: the frame is no higher than the page. -/
structure Browser.Ready (b : Browser) : Prop extends b.Sound w where
  /-- The height that `scroll_by` clamps to. -/
  height_le : b.frame.height.toNat ≤ (w.heightOf b.cur).toNat

variable (w) in
/-- **A consistent browser.** -/
structure Browser.Consistent (b : Browser) : Prop where
  /-- The frame is the composition of the current source at the current scroll. -/
  frame_eq : b.frame = w.frameOf b.cur.src b.cur.scroll
  /-- So is the picture, with the focused link in reverse video. -/
  picture_eq : ∀ img, b.fb = some img → ∃ page,
    (∀ fb, w.picture b.cur.src b.cur.scroll fb = some page) ∧ img = b.overlay page
  /-- The scroll is in range. -/
  scroll_le : (b.cur.scroll.toNat : Int) ≤ max 0 ((b.frame.height.toNat : Int) - lcdHeight)
  /-- The focus is `-1` or a link of the frame. -/
  focus_mem : b.cur.focus = -1 ∨ 0 ≤ b.cur.focus ∧ b.cur.focus < b.frame.links.length

/-- A picture does not depend on what it is drawn over. -/
theorem World.picture_eq (src : Str) (scroll : UInt16) (fb fb' : Image) :
    w.picture src scroll fb = w.picture src scroll fb' := composeOnto_eq ..

namespace Browser

variable {b : Browser}

/-- **The clamp of `recompose` does nothing.** -/
theorem Sound.clamp_compose (h : b.Sound w) : (b.compose w).clamp = b.compose w := by
  have hs : clampScroll b.cur.scroll.toNat (b.compose w).frame.height = b.cur.scroll :=
    clampScroll_of_le h.cur.scroll_le
  rw [clamp]
  simp only [compose] at hs ⊢
  rw [hs]

/-- A second pass repeats the first. -/
theorem compose_compose (b : Browser) : (b.compose w).compose w = b.compose w := by
  have hfb : (b.fb.bind (w.picture b.cur.src b.cur.scroll)).bind (w.picture b.cur.src b.cur.scroll)
      = b.fb.bind (w.picture b.cur.src b.cur.scroll) := by
    cases b.fb with
    | none => rfl
    | some fb =>
      rw [Option.bind_some]
      cases hp : w.picture b.cur.src b.cur.scroll fb with
      | none => rfl
      | some page => rw [Option.bind_some, World.picture_eq _ _ page fb, hp]
  -- the frame is the same anyway: it does not depend on the picture
  rw [compose]
  simp only [compose, hfb]

/-- **Whether there is a second pass does not matter.** -/
theorem settle_compose (b : Browser) :
    (b.compose w).settle w = { b.compose w with lastScroll := b.cur.scroll } := by
  rw [settle]
  split
  next =>
    rw [compose_compose]
    rfl
  -- no second pass, and `_last_scroll` is the scroll already
  next heq =>
    have hlast : b.cur.scroll = (b.compose w).lastScroll := not_not.mp heq
    rw [hlast]

/-- The focus, if it is on the frame. -/
theorem dropFocus_focus (b : Browser) : b.dropFocus =
    { b with cur := { b.cur with
        focus := if (b.frame.links.length : Int) ≤ b.cur.focus then -1 else b.cur.focus } } := by
  rw [dropFocus]
  split <;> rfl

/-- **What `recompose` does**: it composes, and drops a focus that is not on the frame. -/
theorem Sound.recompose_eq (h : b.Sound w) : b.recompose w =
    { (b.compose w) with lastScroll := b.cur.scroll : Browser }.dropFocus.showFocus := by
  rw [recompose, h.clamp_compose, settle_compose]

/-- **After `recompose`** the browser is consistent, and ready for the next command. -/
theorem Sound.recompose (h : b.Sound w) :
    (b.recompose w).Consistent w ∧ (b.recompose w).Ready w := by
  rw [h.recompose_eq, dropFocus_focus]
  have hscroll := h.cur.scroll_le
  have hfocus := h.cur.focus_ge
  rw [maxScroll] at hscroll
  have hdrop : -1 ≤ if ((b.compose w).frame.links.length : Int) ≤ b.cur.focus then -1
      else b.cur.focus := by
    split_ifs
    · exact le_refl (-1)
    · exact hfocus
  refine ⟨⟨rfl, fun img himg => ?_, ?_, ?_⟩, ⟨⟨h.cur.setFocus hdrop, h.stack⟩, Nat.le_refl _⟩⟩
  · obtain ⟨page, hpage, rfl⟩ := Option.map_eq_some_iff.mp himg
    obtain ⟨fb, -, hdraw⟩ := Option.bind_eq_some_iff.mp hpage
    exact ⟨page, fun fb' => (World.picture_eq _ _ fb' fb).trans hdraw, rfl⟩
  · -- the frame was composed at this scroll, so its height is the page's
    show (b.cur.scroll.toNat : Int) ≤ max 0 (((w.heightOf b.cur).toNat : Int) - lcdHeight)
    omega
  · simp only [showFocus, compose]
    split_ifs <;> omega

/-- Of the page `recompose` changes the focus at most. -/
theorem Sound.recompose_same (h : b.Sound w) : (b.recompose w).cur.Same b.cur := by
  rw [h.recompose_eq, dropFocus_focus]
  exact ⟨rfl, rfl, rfl, rfl⟩

/-- A page scrolled to where the frame ends, at most. -/
theorem Ready.kept_scroll (h : b.Ready w) {s : UInt16} (hs : s.toNat ≤ maxScroll b.frame.height) :
    w.Kept { b.cur with scroll := s, focus := -1 } := by
  refine ⟨h.cur.fixed, hs.trans ?_, le_refl (-1)⟩
  have hheight : w.heightOf { b.cur with scroll := s, focus := -1 } = w.heightOf b.cur :=
    h.cur.fixed s b.cur.scroll
  rw [hheight]
  exact Nat.sub_le_sub_right h.height_le _

/-- Scrolling. -/
theorem Ready.scrollBy (h : b.Ready w) (d : Int) : (b.scrollBy d).Sound w :=
  ⟨h.kept_scroll (clampScroll_le _ _), h.stack⟩

/-- To the top. -/
theorem Ready.scrollTop (h : b.Ready w) : b.scrollTop.Sound w :=
  ⟨h.kept_scroll (Nat.zero_le _), h.stack⟩

/-- Another link, by one step. -/
theorem Sound.focusCycle (h : b.Sound w) {dir : Int} (hdir : -1 ≤ dir) :
    (b.focusCycle dir).Sound w := by
  rw [Browser.focusCycle]
  split
  next => exact ⟨h.cur.setFocus (le_refl (-1)), h.stack⟩
  next hn =>
    refine ⟨h.cur.setFocus ?_, h.stack⟩
    split_ifs with hneg hpos
    · decide
    · omega
    · -- the modulus of C truncates, but its argument is not negative
      have hsum : 0 ≤ b.cur.focus + dir + b.frame.links.length := by omega
      exact (by decide : (-1 : Int) ≤ 0).trans (Int.tmod_nonneg _ hsum)

/-- A link by its number. -/
theorem Sound.setFocus (h : b.Sound w) (i : Int) : (b.setFocus i).Sound w := by
  rw [Browser.setFocus]
  split
  next hi => exact ⟨h.cur.setFocus (by omega), h.stack⟩
  next => exact h

/-- Another page, from its top. -/
theorem Sound.commitPage (h : b.Sound w) {src : Str} (hsrc : w.Fixed src) (address dir : Str) :
    (b.commitPage src address dir).Sound w := by
  refine ⟨.top hsrc address dir, fun p hp => ?_⟩
  -- the page that is left was held too
  obtain rfl | hmem := List.mem_cons.mp hp
  · exact h.cur.setFocus (le_refl (-1))
  · exact h.stack p hmem

/-- Back to the page that was left last. -/
theorem Sound.back (h : b.Sound w) : b.back.2.Sound w := by
  rw [Browser.back]
  split
  next => exact ⟨h.cur, h.stack⟩
  next p rest hstack =>
    exact ⟨h.stack p (hstack ▸ List.mem_cons_self),
      fun q hq => h.stack q (hstack ▸ List.mem_cons_of_mem p hq)⟩

/-- Following a target. -/
theorem Sound.followTarget (h : b.Sound w) (hdisk : w.FixedDisk) (target : Str)
    {reply : FetchResult} (hreply : reply.ok = true → w.Fixed reply.page) :
    (b.followTarget w target reply).2.Sound w := by
  rw [Browser.followTarget]
  split
  · split
    next => exact ⟨h.cur, h.stack⟩
    next src hread =>
      have hcommit := h.commitPage (hdisk _ src hread) target
        (dirnameOf (w.disk.resolve target b.cur.dir b.root))
      exact ⟨hcommit.cur, hcommit.stack⟩
  · split
    · split
      next hok =>
        have hcommit := h.commitPage (hreply hok) target []
        exact ⟨hcommit.cur, hcommit.stack⟩
      next => exact ⟨h.cur, h.stack⟩
    · exact ⟨h.cur, h.stack⟩

/-- Opening a page. -/
theorem Sound.openPath (h : b.Sound w) (hdisk : w.FixedDisk) (path : Str) :
    (b.openPath w path).2.Sound w := by
  rw [Browser.openPath]
  split
  next => exact ⟨h.cur, h.stack⟩
  next src hread =>
    -- `open_path` composes by itself, and `recompose` composes again behind it
    have hopened : Sound w { b with
        cur := { src := src, address := path, dir := dirnameOf path }
        status := lit "opened " ++ basenameOf path } :=
      ⟨.top (hdisk path src hread) path (dirnameOf path), h.stack⟩
    exact hopened.recompose.2.toSound

/-- Following the link in focus. -/
theorem Sound.followFocus (h : b.Sound w) (hdisk : w.FixedDisk) {reply : FetchResult}
    (hreply : reply.ok = true → w.Fixed reply.page) : (b.followFocus w reply).2.Sound w := by
  rw [Browser.followFocus]
  split
  next => exact ⟨h.cur, h.stack⟩
  next box => exact h.followTarget hdisk _ hreply

/-- Following the link that is hit. -/
theorem Sound.clickAt (h : b.Sound w) (hdisk : w.FixedDisk) (x y : Int) {reply : FetchResult}
    (hreply : reply.ok = true → w.Fixed reply.page) : (b.clickAt w x y reply).2.Sound w := by
  rw [Browser.clickAt]
  split
  next => exact h
  next i hi =>
    have hhit : Sound w { b with cur := { b.cur with focus := i } } :=
      ⟨h.cur.setFocus (by omega), h.stack⟩
    exact hhit.followTarget hdisk _ hreply

end Browser

/-- A page that the mesh sends is as high at every scroll. -/
def Command.Fixed (w : World) : Command → Prop
  | .followFocus reply | .clickAt _ _ reply => reply.ok = true → w.Fixed reply.page
  | _ => True

/-- **One command** leaves a browser that `recompose` can work with. -/
theorem Browser.Ready.exec {b : Browser} (h : b.Ready w) (hdisk : w.FixedDisk) {c : Command}
    (hc : c.Fixed w) : (b.exec w c).Sound w := by
  cases c with
  | openPath path => exact h.openPath hdisk path
  | scrollBy d => exact h.scrollBy d
  | scrollTop => exact h.scrollTop
  | scrollBottom => exact h.scrollBy _
  | next => exact h.focusCycle (by decide)
  | prev => exact h.focusCycle (le_refl (-1))
  | setFocus i => exact h.setFocus i
  | followFocus reply => exact h.followFocus hdisk hc
  | clickAt x y reply => exact h.clickAt hdisk x y hc
  | back => exact h.back
  | none => exact h.toSound

/-! ## The stack -/

/-- The page that a follow leaves. -/
def Browser.left (b : Browser) : PageState := { b.cur with focus := -1 }

/-- **What a command does to the stack**: a follow that succeeds pushes the page it leaves, a back
that succeeds pops. -/
def Browser.effect (w : World) (b : Browser) : Command → Runs.Effect PageState
  | .followFocus reply => if (b.followFocus w reply).1 then .push b.left else .stay
  | .clickAt x y reply => if (b.clickAt w x y reply).1 then .push b.left else .stay
  | .back => if b.back.1 then .pop else .stay
  | _ => .stay

namespace Browser

/-- `recompose` leaves the stack. -/
theorem recompose_stack (b : Browser) : (b.recompose w).stack = b.stack := by
  rw [recompose, showFocus, dropFocus_focus, settle]
  split <;> rfl

/-- Following a target pushes the page where it succeeds. -/
theorem followTarget_stack (b : Browser) (target : Str) (reply : FetchResult) :
    (b.followTarget w target reply).2.stack
      = if (b.followTarget w target reply).1 then b.left :: b.stack else b.stack := by
  rw [followTarget]
  split
  · split <;> rfl
  · split
    · split <;> rfl
    · rfl

/-- So does following the link in focus. -/
theorem followFocus_stack (b : Browser) (reply : FetchResult) :
    (b.followFocus w reply).2.stack
      = if (b.followFocus w reply).1 then b.left :: b.stack else b.stack := by
  rw [followFocus]
  split
  next => rfl
  next box _ => exact b.followTarget_stack box.target reply

/-- So does following the link that is hit. -/
theorem clickAt_stack (b : Browser) (x y : Int) (reply : FetchResult) :
    (b.clickAt w x y reply).2.stack
      = if (b.clickAt w x y reply).1 then b.left :: b.stack else b.stack := by
  rw [clickAt]
  split
  next => rfl
  next i hi => exact followTarget_stack _ _ reply

/-- The commands that neither follow nor go back leave the stack. -/
theorem openPath_stack (b : Browser) (path : Str) : (b.openPath w path).2.stack = b.stack := by
  rw [openPath]
  split
  next => rfl
  next => exact recompose_stack _

/-- Another link. -/
theorem focusCycle_stack (b : Browser) (dir : Int) : (b.focusCycle dir).stack = b.stack := by
  rw [focusCycle]
  split <;> rfl

/-- A link by its number. -/
theorem setFocus_stack (b : Browser) (i : Int) : (b.setFocus i).stack = b.stack := by
  rw [setFocus]
  split <;> rfl

/-- **One command** does to the stack what is said of it. -/
theorem exec_stack (b : Browser) (c : Command) :
    (b.effect w c).Does b.stack (b.exec w c).stack := by
  cases c with
  | openPath path => exact b.openPath_stack path
  | next => exact b.focusCycle_stack 1
  | prev => exact b.focusCycle_stack (-1)
  | setFocus i => exact b.setFocus_stack i
  | followFocus reply =>
    rw [effect, exec, followFocus_stack]
    split <;> rfl
  | clickAt x y reply =>
    rw [effect, exec, clickAt_stack]
    split <;> rfl
  | back =>
    rw [effect, exec, back]
    cases hb : b.stack with
    | nil => rfl
    | cons p rest => exact ⟨p, rfl⟩
  | scrollBy _ | scrollTop | scrollBottom | none => rfl

/-- **A session is a machine with a stack.** -/
theorem stacked : Runs.Stacked (step w) Browser.stack (effect w) := by
  intro b c
  rw [step, recompose_stack]
  exact b.exec_stack c

/-- What is pushed is the page that is left. -/
theorem eq_left_of_effect {b : Browser} {c : Command} {p : PageState}
    (h : b.effect w c = .push p) : p = b.left := by
  cases c with
  | followFocus reply =>
    rw [effect] at h
    split at h
    · exact (Runs.Effect.push.inj h).symm
    · cases h
  | clickAt x y reply =>
    rw [effect] at h
    split at h
    · exact (Runs.Effect.push.inj h).symm
    · cases h
  | back =>
    rw [effect] at h
    split at h <;> cases h
  | openPath _ | next | prev | setFocus _ | scrollBy _ | scrollTop | scrollBottom | none => cases h

/-- What the top of the stack becomes when the browser goes back. -/
theorem back_cur {b : Browser} (hback : b.back.1 = true) :
    b.stack = b.back.2.cur :: b.back.2.stack := by
  unfold back at hback ⊢
  cases hb : b.stack with
  | nil =>
    rw [hb] at hback
    cases hback
  | cons p rest => rfl

end Browser

/-! ## Sessions -/

variable (w)

/-- **Navigation is right** at a command behind a session. -/
structure Navigates (root : Str) (fb : Image) (cs : List Command) (c : Command) : Prop where
  /-- The browser is consistent. -/
  consistent : (session w root fb (cs ++ [c])).Consistent w
  /-- A back that succeeds returns to where the follow that matches it left. -/
  returns : c = .back → (session w root fb cs).back.1 = true → ∃ pre d mid, cs = pre ++ d :: mid ∧
    (session w root fb pre).effect w d = .push (session w root fb pre).left ∧
    Runs.Balanced (Browser.step w) (Browser.effect w) (session w root fb (pre ++ [d])) mid ∧
    (session w root fb (cs ++ [c])).cur.Same (session w root fb pre).cur

variable {w} {root : Str} {fb : Image} {cs : List Command}

/-- A browser that has just been built is ready. -/
theorem ready_new (root : Str) (fb : Image) : Browser.Ready w { root := root, fb := some fb } :=
  ⟨⟨.top heightFixed_nil [] [], fun _ hp => nomatch hp⟩, Nat.zero_le _⟩

/-- **Between the commands of a session** the browser is ready. -/
theorem session_ready (hdisk : w.FixedDisk) (hcs : ∀ c ∈ cs, c.Fixed w) :
    (session w root fb cs).Ready w := by
  have halong : Runs.Along (Browser.step w) (fun _ c => c.Fixed w)
      { root := root, fb := some fb } cs := Runs.along_of_forall (fun _ c hc => hcs c hc) _
  exact halong.invariant (Browser.Ready w) (fun b c hb hc => (hb.exec hdisk hc).recompose.2)
    (ready_new root fb)

/-- **Navigation is right over every session**: after each `recompose` the frame is the composition
of the current source at the current scroll, the scroll is in range, the focus is on the frame, and
back returns to where the matching follow left. -/
theorem navigation_consistent (hdisk : w.FixedDisk) (root : Str) (fb : Image) {cs : List Command}
    {c : Command} (hcs : ∀ d ∈ cs ++ [c], d.Fixed w) : Navigates w root fb cs c := by
  have hready : (session w root fb cs).Ready w :=
    session_ready hdisk fun d hd => hcs d (List.mem_append_left _ hd)
  have hsound := hready.exec hdisk (hcs c (List.mem_append_right _ (List.mem_singleton_self c)))
  have hstep : session w root fb (cs ++ [c]) = ((session w root fb cs).exec w c).recompose w := by
    rw [session, Runs.run_append, Runs.run_cons, Runs.run_nil]
    rfl
  refine ⟨hstep ▸ hsound.recompose.1, fun hc hback => ?_⟩
  subst hc
  have htop : (Runs.run (Browser.step w) { root := root, fb := some fb } cs).stack = _ :=
    Browser.back_cur hback
  -- what `back` takes off was pushed by the follow that matches
  obtain ⟨pre, d, mid, hcs', hpush, -, hbal⟩ := Browser.stacked.top rfl htop
  have hleft : (session w root fb cs).back.2.cur = (session w root fb pre).left :=
    Browser.eq_left_of_effect hpush
  refine ⟨pre, d, mid, hcs', hleft ▸ hpush, hbal, ?_⟩
  have hcur : ((session w root fb cs).exec w .back).cur = (session w root fb pre).left := hleft
  -- and `recompose` changes no more of it than the focus
  have hsame := hsound.recompose_same
  rw [hcur] at hsame
  rw [hstep]
  exact ⟨hsame.src_eq, hsame.address_eq, hsame.dir_eq, hsame.scroll_eq⟩

/-- Every line is a link to what it says. -/
def linkText : Parser where
  State := Unit
  reset := ()
  parseLine _ t := ([.link t t {}, .lineEnd {}], ())

/-- A disk with two pages, a link from each to the other. -/
def twoPages : World where
  fonts := Display.blankFonts
  parser := linkText
  tbuf := fun _ => 0
  disk :=
    { fileExists := fun path => path == lit "/pages/index.mu" || path == lit "/pages/next.mu"
      readFile := fun path =>
        if path = lit "/pages/index.mu" then some (lit "next")
        else if path = lit "/pages/next.mu" then some (lit "index")
        else none }
  liveFetch := false

/-- No page of it has a table. -/
theorem fixed_twoPages (src : Str) : twoPages.Fixed src := by
  refine heightFixed_of_noTable ?_
  refine Parser.forall_pageCallbacks _ (fun s => Callback.noConfusion) (fun _ t c hc s => ?_) src
  obtain rfl | rfl := List.mem_pair.mp hc
  · exact Callback.noConfusion
  · exact Callback.noConfusion

/-- A mesh that does not answer. -/
def timeout : FetchResult := { ok := false, page := [], error := lit "timeout" }

/-- A page is opened, scrolled, and its link followed. -/
def openAndFollow : List Command :=
  [.openPath (lit "/pages/index.mu"), .scrollBy 15, .next, .followFocus timeout]

/-- **There and back again**: a back behind it succeeds, and returns to the page. -/
theorem navigation_consistent_page : twoPages.FixedDisk ∧
    (∀ d ∈ openAndFollow ++ [.back], d.Fixed twoPages) ∧
    (session twoPages (lit "/pages") (fun _ => 0xFF) openAndFollow).back.1 = true ∧
    Navigates twoPages (lit "/pages") (fun _ => 0xFF) openAndFollow .back := by
  have hdisk : twoPages.FixedDisk := fun _ src _ => fixed_twoPages src
  have hcs : ∀ d ∈ openAndFollow ++ [.back], d.Fixed twoPages := by
    simp [openAndFollow, Command.Fixed, timeout]
  have hback : (session twoPages (lit "/pages") (fun _ => 0xFF) openAndFollow).back.1 = true := by
    decide +kernel
  exact ⟨hdisk, hcs, hback, navigation_consistent hdisk (lit "/pages") (fun _ => 0xFF) hcs⟩

end Thicket.Desktop
