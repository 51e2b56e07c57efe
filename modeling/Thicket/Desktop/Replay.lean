import Thicket.Desktop.Script
import Thicket.Page.LinkBoxes

/-! # Sessions at the window, replayed by a script

`run_interactive` of `desktop/browser.cpp`. What is done at the window with keys and clicks can be
written down as a script, and the script leaves the same browser. -/

namespace Thicket.Desktop

open Thicket.Lcd Thicket.Page

/-! ## Events -/

/-- The keys that are looked at, by their `SDLK_` names. -/
inductive Key where
  /-- `SDLK_q`. -/
  | q
  /-- `SDLK_ESCAPE`. -/
  | escape
  /-- `SDLK_DOWN`. -/
  | down
  /-- `SDLK_j`. -/
  | j
  /-- `SDLK_UP`. -/
  | up
  /-- `SDLK_k`. -/
  | k
  /-- `SDLK_PAGEDOWN`. -/
  | pagedown
  /-- `SDLK_PAGEUP`. -/
  | pageup
  /-- `SDLK_SPACE`. -/
  | space
  /-- `SDLK_HOME`. -/
  | home
  /-- `SDLK_END`. -/
  | toEnd
  /-- `SDLK_g`. -/
  | g
  /-- `SDLK_TAB`. -/
  | tab
  /-- `SDLK_RETURN`. -/
  | enter
  /-- `SDLK_RETURN2`. -/
  | enter2
  /-- `SDLK_LEFT`. -/
  | left
  /-- `SDLK_BACKSPACE`. -/
  | backspace
  /-- `SDLK_b`. -/
  | b
  /-- Any other. -/
  | other
  deriving DecidableEq, Repr

/-- What the window reports. -/
inductive Event where
  /-- `SDL_QUIT`. -/
  | quit
  /-- `SDL_KEYDOWN`, with or without shift. -/
  | keydown (key : Key) (shift : Bool)
  /-- The left button, at a point of the panel. -/
  | click (x y : Int)
  /-- Any other. -/
  | other
  deriving DecidableEq, Repr

/-- The event ends the loop. -/
def Event.quits : Event → Bool
  | .quit | .keydown .q _ | .keydown .escape _ => true
  | _ => false

/-- `LINE`. -/
def lineStep : Int := 15
/-- `PAGE`. -/
def pageStep : Int := lcdHeight - 20

/-- What an event does; nothing when it is not handled. -/
def Event.command (reply : FetchResult) : Event → Option Command
  | .keydown .down _ | .keydown .j _ => some (.scrollBy lineStep)
  | .keydown .up _ | .keydown .k _ => some (.scrollBy (-lineStep))
  | .keydown .pagedown _ => some (.scrollBy pageStep)
  | .keydown .pageup _ => some (.scrollBy (-pageStep))
  | .keydown .space shift => some (.scrollBy (if shift then -pageStep else pageStep))
  | .keydown .home _ => some .scrollTop
  | .keydown .toEnd _ => some .scrollBottom
  | .keydown .g shift => some (if shift then .scrollBottom else .scrollTop)
  | .keydown .tab shift => some (if shift then .prev else .next)
  | .keydown .enter _ | .keydown .enter2 _ => some (.followFocus reply)
  | .keydown .left _ | .keydown .backspace _ | .keydown .b _ => some .back
  | .click x y => some (.clickAt x y reply)
  | .quit | .keydown .q _ | .keydown .escape _ | .keydown .other _ | .other => none

variable (w : World)

/-- An event, and the `recompose` behind one that is handled. -/
def Browser.handle (b : Browser) (e : Event × FetchResult) : Browser :=
  match e.1.command e.2 with
  | some c => b.step w c
  | none => b

/-- **`run_interactive`**, until the window is closed. -/
def interact (b : Browser) (events : List (Event × FetchResult)) : Browser :=
  Runs.run (Browser.handle w) b (events.takeWhile fun e => !e.1.quits)

/-! ## The script of a session -/

/-- The orders that do what an event does to this browser. -/
def Event.orders (b : Browser) : Event → List Str
  | .keydown .down _ | .keydown .j _ => [lit "down"]
  | .keydown .up _ | .keydown .k _ => [lit "up"]
  | .keydown .pagedown _ => [lit "pagedown"]
  | .keydown .pageup _ => [lit "pageup"]
  | .keydown .space shift => [if shift then lit "pageup" else lit "pagedown"]
  | .keydown .home _ => [lit "top"]
  | .keydown .toEnd _ => [lit "bottom"]
  | .keydown .g shift => [if shift then lit "bottom" else lit "top"]
  | .keydown .tab shift => [if shift then lit "prev" else lit "next"]
  | .keydown .enter _ | .keydown .enter2 _ => [lit "enter"]
  | .keydown .left _ | .keydown .backspace _ | .keydown .b _ => [lit "back"]
  | .click x y =>
      match b.frame.links.findIdx? (fun box => box.Hit x y) with
      | some i => [lit "focus " ++ lit (toString i), lit "enter"]
      | none => []
  | .quit | .keydown .q _ | .keydown .escape _ | .keydown .other _ | .other => []

/-- The orders of a session, each with the answer of the mesh. -/
def recorded (b : Browser) (events : List (Event × FetchResult)) : List (Str × FetchResult) :=
  Runs.outputs (Browser.handle w) (fun b e => (e.1.orders b).map fun cmd => (cmd, e.2)) b
    (events.takeWhile fun e => !e.1.quits)

/-- The answers of the mesh, in the order in which they are asked for. -/
def answers (os : List (Str × FetchResult)) (k : Nat) : FetchResult :=
  ((os[k]?).map Prod.snd).getD { ok := false, page := [], error := [] }

variable {w}

/-! ## Browsers that are alike -/

/-- Browsers that `recompose` does not tell apart: they may differ in what they drew last. -/
structure Browser.Alike (b c : Browser) : Prop where
  /-- The root. -/
  root_eq : b.root = c.root
  /-- The page. -/
  cur_eq : b.cur = c.cur
  /-- The pages that were left. -/
  stack_eq : b.stack = c.stack
  /-- The status. -/
  status_eq : b.status = c.status
  /-- Both have returned from every rectangle, or neither has. -/
  fb_isSome : b.fb.isSome = c.fb.isSome

namespace Browser

variable {b c : Browser}

/-- A picture on either is the same. -/
theorem Alike.picture_eq (h : b.Alike c) (src : Str) (scroll : UInt16) :
    b.fb.bind (w.picture src scroll) = c.fb.bind (w.picture src scroll) := by
  have hsome := h.fb_isSome
  cases hb : b.fb with
  | none => cases hc : c.fb with
    | none => rfl
    | some fb => simp [hb, hc] at hsome
  | some fb => cases hc : c.fb with
    | none => simp [hb, hc] at hsome
    | some fb' => exact World.picture_eq src scroll fb fb'

/-- **`recompose` does not tell them apart.** -/
theorem Alike.recompose_eq (h : b.Alike c) (hb : b.Sound w) (hc : c.Sound w) :
    b.recompose w = c.recompose w := by
  rw [hb.recompose_eq, hc.recompose_eq]
  have hcompose : ({ b.compose w with lastScroll := b.cur.scroll } : Browser)
      = { c.compose w with lastScroll := c.cur.scroll } := by
    have hpicture := h.picture_eq (w := w) c.cur.src c.cur.scroll
    simp only [compose, h.root_eq, h.cur_eq, h.stack_eq, h.status_eq, hpicture]
  rw [hcompose]

/-- Following a target keeps them alike. -/
theorem Alike.followTarget (h : b.Alike c) (target : Str) (reply : FetchResult) :
    (b.followTarget w target reply).2.Alike (c.followTarget w target reply).2 := by
  unfold Browser.followTarget commitPage
  rw [h.cur_eq, h.root_eq]
  dsimp only
  split
  · split
    · exact ⟨rfl, rfl, h.stack_eq, rfl, h.fb_isSome⟩
    · exact ⟨rfl, rfl, congrArg (List.cons _) h.stack_eq, rfl, h.fb_isSome⟩
  · split
    · split
      · exact ⟨rfl, rfl, congrArg (List.cons _) h.stack_eq, rfl, h.fb_isSome⟩
      · exact ⟨rfl, rfl, h.stack_eq, rfl, h.fb_isSome⟩
    · exact ⟨rfl, rfl, h.stack_eq, rfl, h.fb_isSome⟩

/-- What `recompose` leaves in focus. -/
def keptFocus (w : World) (b : Browser) : Int :=
  if ((w.frameOf b.cur.src b.cur.scroll).links.length : Int) ≤ b.cur.focus then -1 else b.cur.focus

/-- **What `recompose` leaves**, in full. -/
theorem Sound.recompose_form (h : b.Sound w) : b.recompose w =
    { b.compose w with
      lastScroll := b.cur.scroll
      cur := { b.cur with focus := keptFocus w b } : Browser }.showFocus := by
  rw [h.recompose_eq, dropFocus_focus]
  rfl

/-- The page that `recompose` leaves. -/
theorem Sound.recompose_cur (h : b.Sound w) :
    (b.recompose w).cur = { b.cur with focus := keptFocus w b } := by
  rw [h.recompose_form]
  rfl

/-- A focus that is kept is kept again. -/
theorem Sound.keptFocus_recompose (h : b.Sound w) :
    keptFocus w (b.recompose w) = keptFocus w b := by
  rw [keptFocus, h.recompose_cur]
  dsimp only
  unfold keptFocus
  split_ifs <;> omega

/-- The picture behind the overlay. -/
theorem Sound.recompose_fb (h : b.Sound w) :
    (b.recompose w).fb.bind (w.picture b.cur.src b.cur.scroll)
      = b.fb.bind (w.picture b.cur.src b.cur.scroll) := by
  rw [h.recompose_form]
  simp only [showFocus, compose]
  cases b.fb with
  | none => rfl
  | some fb =>
    rw [Option.bind_some]
    cases hpage : w.picture b.cur.src b.cur.scroll fb with
    | none => rfl
    | some page =>
      rw [Option.map_some, Option.bind_some, World.picture_eq _ _ _ fb, hpage]

/-- `recompose` returns where the picture does. -/
theorem Sound.recompose_fb_isSome (h : b.Sound w) : (b.recompose w).fb.isSome
    = (b.fb.bind (w.picture b.cur.src b.cur.scroll)).isSome := by
  rw [h.recompose_form, showFocus, Option.isSome_map]
  rfl

/-- **`recompose` does nothing twice.** -/
theorem Sound.recompose_recompose (h : b.Sound w) :
    (b.recompose w).recompose w = b.recompose w := by
  have hagain : (b.recompose w).Sound w := h.recompose.2.toSound
  have hcompose : (b.recompose w).compose w = { b.compose w with
      lastScroll := b.cur.scroll, cur := { b.cur with focus := keptFocus w b } } := by
    have hfb := h.recompose_fb
    rw [compose, h.recompose_cur]
    simp only [hfb]
    rw [h.recompose_form]
    rfl
  rw [hagain.recompose_form, hcompose, h.keptFocus_recompose, h.recompose_cur, h.recompose_form]

/-! ## One event -/

/-- What holds at the window between two events. -/
structure Shown (w : World) (b : Browser) : Prop extends b.Ready w where
  /-- There is nothing to recompose. -/
  recompose_eq : b.recompose w = b

/-- Every command leaves a browser that is shown. -/
theorem Ready.shown_step (h : b.Ready w) (hdisk : w.FixedDisk) {cmd : Command}
    (hcmd : cmd.Fixed w) : (b.step w cmd).Shown w :=
  have hsound := h.exec hdisk hcmd
  ⟨hsound.recompose.2, hsound.recompose_recompose⟩

/-- The browser with another focus, not drawn yet. -/
def focusOn (b : Browser) (i : Nat) : Browser := { b with cur := { b.cur with focus := i } }

/-- A focus on a link of the frame. -/
theorem setFocus_eq {i : Nat} (hi : i < b.frame.links.length) : b.setFocus i = b.focusOn i :=
  if_pos (by omega)

/-- The frame of a browser that is shown. -/
theorem Shown.frameOf_eq (h : b.Shown w) : w.frameOf b.cur.src b.cur.scroll = b.frame := by
  have hconsistent := h.toSound.recompose.1
  rw [h.recompose_eq] at hconsistent
  exact hconsistent.frame_eq.symm

/-- A link in focus, drawn or not. -/
theorem Shown.alike_setFocus (h : b.Shown w) {i : Nat} (hi : i < b.frame.links.length) :
    (b.step w (.setFocus i)).frame = b.frame ∧ (b.step w (.setFocus i)).Alike (b.focusOn i) := by
  have hsound : (b.focusOn i).Sound w := setFocus_eq hi ▸ h.toSound.setFocus i
  have hstep : b.step w (.setFocus i) = (b.focusOn i).recompose w := by
    rw [step, exec, setFocus_eq hi]
  have hkept : keptFocus w (b.focusOn i) = i := by
    have hframe : w.frameOf (b.focusOn i).cur.src (b.focusOn i).cur.scroll = b.frame := h.frameOf_eq
    rw [keptFocus, hframe]
    exact if_neg (not_le.mpr (Int.ofNat_lt.mpr hi))
  have hfb : (b.step w (.setFocus i)).fb.isSome = (b.focusOn i).fb.isSome := by
    have hagain := h.toSound.recompose_fb_isSome
    rw [h.recompose_eq] at hagain
    rw [hstep, hsound.recompose_fb_isSome]
    exact hagain.symm
  refine ⟨?_, ⟨?_, ?_, ?_, ?_, hfb⟩⟩
  · rw [hstep, hsound.recompose_form]
    exact h.frameOf_eq
  · rw [hstep, hsound.recompose_form]
    rfl
  · rw [hstep, hsound.recompose_cur, hkept]
    rfl
  · rw [hstep, hsound.recompose_form]
    rfl
  · rw [hstep, hsound.recompose_form]
    rfl

/-- **A click is a focus and an enter.** -/
theorem Shown.click_hit (h : b.Shown w) (hdisk : w.FixedDisk) {x y : Int} {reply : FetchResult}
    (hreply : reply.ok = true → w.Fixed reply.page) {i : Nat}
    (hhit : b.frame.links.findIdx? (fun box => box.Hit x y) = some i) :
    (b.step w (.setFocus i)).step w (.followFocus reply) = b.step w (.clickAt x y reply) := by
  obtain ⟨hi, -⟩ := List.findIdx?_eq_some_iff_getElem.mp hhit
  obtain ⟨hframe, halike⟩ := h.alike_setFocus hi
  have hfixed : (Command.setFocus i).Fixed w := trivial
  have hready : (b.step w (.setFocus i)).Ready w := (h.toReady.shown_step hdisk hfixed).toReady
  have hfocused : (b.step w (.setFocus i)).focused = some b.frame.links[i] := by
    rw [focused, halike.cur_eq, hframe]
    simp [focusOn]
  have hfollow : (b.step w (.setFocus i)).exec w (.followFocus reply)
      = ((b.step w (.setFocus i)).followTarget w b.frame.links[i].target reply).2 := by
    rw [exec, followFocus, hfocused]
  have hclick : b.exec w (.clickAt x y reply)
      = ((b.focusOn i).followTarget w b.frame.links[i].target reply).2 := by
    rw [exec, clickAt, hhit]
    simp [focusOn, hi]
  have hsound := hready.exec hdisk (c := .followFocus reply) hreply
  have hsound' := h.toReady.exec hdisk (c := .clickAt x y reply) hreply
  rw [step, hfollow]
  rw [hfollow] at hsound
  have hstep : b.step w (.clickAt x y reply) = (b.exec w (.clickAt x y reply)).recompose w := rfl
  rw [hstep, hclick]
  rw [hclick] at hsound'
  exact (halike.followTarget _ reply).recompose_eq hsound hsound'

/-- A click beside the links does nothing. -/
theorem Shown.click_miss (h : b.Shown w) {x y : Int} {reply : FetchResult}
    (hmiss : b.frame.links.findIdx? (fun box => box.Hit x y) = none) :
    b.step w (.clickAt x y reply) = b := by
  have hexec : b.exec w (.clickAt x y reply) = b := by rw [exec, clickAt, hmiss]
  rw [step, hexec, h.recompose_eq]

end Browser

/-! ## The orders of an event -/

/-- A frame has no more links than the renderer has room for. -/
theorem length_links_le (src : Str) (scroll : UInt16) :
    (w.frameOf src scroll).links.length ≤ maxLinks := by
  rw [World.frameOf, List.length_map]
  refine Runs.run_invariant (fun r : PageRenderer => r.links.boxes.length ≤ maxLinks)
    (fun r cb hr => ?_) (Nat.zero_le _) _
  have hadd (l : LinkTable) (b : LinkBox) (hl : l.boxes.length ≤ maxLinks) :
      (l.add b).boxes.length ≤ maxLinks := by
    rw [LinkTable.add]
    split
    · rw [List.length_append, List.length_singleton]
      omega
    · exact hl
  cases hc : r.linkCall w.options cb with
  | none => rwa [PageRenderer.links_of_none hc]
  | some c =>
    obtain ⟨-, hstep, hlinks, -, -⟩ := PageRenderer.linkCall_spec hc
    have hemitted : (c.emitted w.options).links = c.start.links :=
      PageRenderer.frame_sameLinks.emitRun c.label c.start.invert c.start
    have hafter : (c.after w.options).links
        = if (c.emitted w.options).rowVisible then (c.emitted w.options).links.add (c.box w.options)
        else (c.emitted w.options).links := rfl
    rw [hstep, hafter, hemitted, hlinks]
    split
    · exact hadd _ _ hr
    · exact hr

/-- A digit is neither white space nor a sign nor a semicolon. -/
theorem of_isDigit {c : UInt8} (h : isDigit c = true) :
    isSpace c = false ∧ c ≠ semicolon ∧ c ≠ 0x2D ∧ c ≠ 0x2B := by
  have hrange : 48 ≤ c.toNat ∧ c.toNat ≤ 57 := by
    simpa [isDigit, UInt8.le_iff_toNat_le] using h
  have hne (d : UInt8) (hd : d.toNat < 48 ∨ 57 < d.toNat) : c ≠ d := by
    rintro rfl
    omega
  have hspace : ¬ c.toNat ≤ 13 := by omega
  refine ⟨?_, hne _ (by decide), hne _ (by decide), hne _ (by decide)⟩
  simp only [isSpace, Bool.or_eq_false_iff, beq_eq_false_iff_ne, Bool.and_eq_false_iff,
    decide_eq_false_iff_not, UInt8.le_iff_toNat_le]
  exact ⟨hne _ (by decide), .inr hspace⟩

/-- A number has digits. -/
theorem decimal_ne_nil (n : Nat) : lit (toString n) ≠ [] := fun hnil =>
  have hdigits : (toString n).toList = [] := List.map_eq_nil_iff.mp hnil
  Nat.toDigits_ne_nil (Nat.toList_repr.symm.trans hdigits)

/-- **A number is read as it was written**, if a `long` holds it. -/
theorem atol_decimal {n : Nat} (hn : n < 2 ^ 63) : atol (lit (toString n)) = n := by
  have hvalue : leadingDigits (lit (toString n)) = n := by
    have hrest : ∀ c ∈ ([] : Str).head?, isDigit c = false := fun _ h => nomatch h
    simpa using leadingDigits_decimal n hrest
  obtain ⟨c, text, htext⟩ := List.exists_cons_of_ne_nil (decimal_ne_nil n)
  obtain ⟨hspace, -, hminus, hplus⟩ :=
    of_isDigit (isDigit_of_mem_decimal (htext ▸ List.mem_cons_self : c ∈ lit (toString n)))
  have htrim : (lit (toString n)).dropWhile isSpace = c :: text := by
    rw [htext, List.dropWhile_cons, hspace, if_neg Bool.false_ne_true]
  rw [atol, htrim, List.head?_cons, if_neg fun h => hminus (Option.some.inj h),
    if_neg fun h => hplus (Option.some.inj h), ← htext, hvalue]
  omega

/-- The words that orders are made of. -/
theorem plain_word : ∀ cmd ∈ [lit "down", lit "up", lit "pagedown", lit "pageup", lit "top",
    lit "bottom", lit "next", lit "prev", lit "enter", lit "back"], Plain cmd := by
  simp only [List.forall_mem_cons]
  refine ⟨?_, ?_, ?_, ?_, ?_, ?_, ?_, ?_, ?_, ?_, fun _ h => nomatch h⟩
  all_goals
    refine ⟨by decide, by decide, ?_, ?_⟩
    · rintro c ⟨⟩
      rfl
    · rintro c ⟨⟩
      rfl

/-- The order that focuses a link. -/
theorem plain_focus (i : Nat) : Plain (lit "focus " ++ lit (toString i)) := by
  have hdigit : ∀ c ∈ lit (toString i), isSpace c = false ∧ c ≠ semicolon := fun c hc =>
    have h := of_isDigit (isDigit_of_mem_decimal hc)
    ⟨h.1, h.2.1⟩
  refine ⟨by simp [lit], fun hmem => ?_, fun c hc => ?_, fun c hc => ?_⟩
  · obtain hword | hnumber := List.mem_append.mp hmem
    · exact absurd hword (by decide)
    · exact (hdigit _ hnumber).2 rfl
  · obtain rfl : 0x66 = c := Option.some.inj hc
    decide
  · rw [List.getLast?_append_of_ne_nil _ (decimal_ne_nil i)] at hc
    exact (hdigit c (List.mem_of_getLast? hc)).1

/-- The orders of an event are plain. -/
theorem plain_orders (b : Browser) (e : Event) : ∀ cmd ∈ e.orders b, Plain cmd := by
  cases e with
  | quit => exact fun _ h => nomatch h
  | other => exact fun _ h => nomatch h
  | keydown key shift =>
    intro cmd hcmd
    have hword : cmd ∈ [lit "down", lit "up", lit "pagedown", lit "pageup", lit "top",
        lit "bottom", lit "next", lit "prev", lit "enter", lit "back"] := by
      cases key <;> cases shift <;> simp only [Event.orders] at hcmd <;> simp_all
    exact plain_word cmd hword
  | click x y =>
    intro cmd hcmd
    simp only [Event.orders] at hcmd
    split at hcmd
    next i _ =>
      obtain rfl | rfl := List.mem_pair.mp hcmd
      · exact plain_focus i
      · exact plain_word _ (by simp)
    next => cases hcmd

/-- The commands of orders, with one answer of the mesh. -/
def commandsOf (cmds : List Str) (reply : FetchResult) : List Command :=
  cmds.map fun cmd => (Order.parse cmd).command reply

/-- A key is one order. -/
theorem commandsOf_keydown (b : Browser) (key : Key) (shift : Bool) (reply : FetchResult) :
    commandsOf ((Event.keydown key shift).orders b) reply
      = ((Event.keydown key shift).command reply).toList := by
  cases key <;> cases shift <;> rfl

/-- A focus that is read back. -/
theorem command_focus {i : Nat} (hi : i < maxLinks) (reply : FetchResult) :
    (Order.parse (lit "focus " ++ lit (toString i))).command reply = .setFocus i := by
  have hparse : (Order.parse (lit "focus " ++ lit (toString i))).command reply
      = .setFocus ((atol (lit (toString i))).bmod (2 ^ 32)) := rfl
  have hmax : maxLinks = 48 := rfl
  rw [hparse, atol_decimal (by omega), Int.bmod_eq_of_le (by omega) (by omega)]

/-- What the mesh answers to an event is as high at every scroll. -/
theorem Event.fixed_command {e : Event} {reply : FetchResult} {c : Command}
    (h : reply.ok = true → w.Fixed reply.page) (hc : e.command reply = some c) : c.Fixed w := by
  cases e with
  | quit => cases hc
  | other => cases hc
  | click x y =>
    obtain rfl := Option.some.inj hc
    exact h
  | keydown key shift =>
    cases key <;> cases shift <;> first
      | cases hc; done
      | (obtain rfl := Option.some.inj hc; first | exact h | trivial)

/-- **One event is its orders.** -/
theorem Browser.Shown.run_orders {b : Browser} (h : b.Shown w) (hdisk : w.FixedDisk)
    {e : Event × FetchResult} (he : e.2.ok = true → w.Fixed e.2.page) :
    Runs.run (Browser.step w) b (commandsOf (e.1.orders b) e.2) = b.handle w e ∧
      (b.handle w e).Shown w := by
  obtain ⟨e, reply⟩ := e
  constructor
  · cases e with
    | quit => rfl
    | other => rfl
    | keydown key shift =>
      rw [commandsOf_keydown, Browser.handle]
      cases (Event.keydown key shift).command reply with
      | none => rfl
      | some c => rfl
    | click x y =>
      cases hhit : b.frame.links.findIdx? (fun box => box.Hit x y) with
      | none =>
        simp only [Event.orders, hhit, commandsOf, List.map_nil, Runs.run_nil]
        exact (h.click_miss hhit).symm
      | some i =>
        obtain ⟨hi, -⟩ := List.findIdx?_eq_some_iff_getElem.mp hhit
        have hmax : b.frame.links.length ≤ maxLinks := h.frameOf_eq ▸ length_links_le _ _
        have henter : (Order.parse (lit "enter")).command reply = .followFocus reply := rfl
        simp only [Event.orders, hhit, commandsOf, List.map_cons, List.map_nil,
          command_focus (hi.trans_le hmax), henter, Runs.run_cons, Runs.run_nil]
        exact h.click_hit hdisk he hhit
  · rw [Browser.handle]
    cases hc : e.command reply with
    | none => exact h
    | some c => exact h.toReady.shown_step hdisk (Event.fixed_command he hc)

/-! ## Whole sessions -/

/-- The commands of what is recorded. -/
def replayed (os : List (Str × FetchResult)) : List Command :=
  os.map fun o => (Order.parse o.1).command o.2

/-- **A session is its orders.** -/
theorem Browser.Shown.run_recorded {b : Browser} (h : b.Shown w) (hdisk : w.FixedDisk)
    {events : List (Event × FetchResult)}
    (hevents : ∀ e ∈ events, e.2.ok = true → w.Fixed e.2.page) :
    Runs.run (Browser.step w) b (replayed (Runs.outputs (Browser.handle w)
        (fun b e => (e.1.orders b).map fun cmd => (cmd, e.2)) b events))
      = Runs.run (Browser.handle w) b events := by
  induction events generalizing b with
  | nil => rfl
  | cons e events ih =>
    rw [List.forall_mem_cons] at hevents
    obtain ⟨horders, hshown⟩ := h.run_orders hdisk hevents.1
    have hfirst : replayed ((e.1.orders b).map fun cmd => (cmd, e.2))
        = commandsOf (e.1.orders b) e.2 := by
      rw [replayed, List.map_map]
      rfl
    rw [Runs.outputs_cons, replayed, List.map_append, Runs.run_append, Runs.run_cons]
    rw [replayed] at hfirst
    rw [hfirst, horders]
    exact ih hshown hevents.2

/-- The answers of the mesh come in turn. -/
theorem ordersOf_scriptOf {os : List (Str × FetchResult)} (h : ∀ o ∈ os, Plain o.1) :
    (ordersOf (scriptOf (os.map Prod.fst)) (answers os)).map (fun o => o.1.command o.2)
      = replayed os := by
  have hplain : ∀ cmd ∈ os.map Prod.fst, Plain cmd := by
    simpa using fun cmd reply hmem => h (cmd, reply) hmem
  rw [ordersOf, orders_scriptOf hplain, replayed]
  refine List.ext_getElem? fun k => ?_
  simp only [List.getElem?_map, List.getElem?_mapIdx, Option.map_map]
  cases hk : os[k]? with
  | none => rfl
  | some o => simp [answers, hk]

/-- **A session at the window is replayed by a script.** Where every page on the disk and every page
that the mesh answers with is as high at every scroll: whatever is pressed and clicked on a page
until the window is closed, the script that writes it down leaves the same browser, that is the
page, the frame, the picture, the scroll, the focus, the pages to go back to and the status. -/
theorem session_replayed (hdisk : w.FixedDisk) {root page : Str} {fb : Image} {b : Browser}
    (hb : opened w root page fb = some b) {events : List (Event × FetchResult)}
    (hevents : ∀ e ∈ events, e.2.ok = true → w.Fixed e.2.page) (outdir : Str) (scale : UInt8) :
    (runScript w b (scriptOf ((recorded w b events).map Prod.fst)) outdir scale
      (answers (recorded w b events))).browser = interact w b events := by
  have hshown : b.Shown w := by
    obtain ⟨c, hc, rfl⟩ := exists_recompose_of_opened hdisk hb
    exact ⟨hc.recompose.2, hc.recompose_recompose⟩
  have hplain : ∀ o ∈ recorded w b events, Plain o.1 := by
    refine Runs.forall_mem_outputs _ (fun b e o ho => ?_) b _
    obtain ⟨cmd, hcmd, rfl⟩ := List.mem_map.mp ho
    exact plain_orders b e.1 cmd hcmd
  rw [runScript, run_perform, ordersOf_scriptOf hplain]
  exact hshown.run_recorded hdisk fun e he => hevents e (List.takeWhile_subset _ he)

/-- A key, a click on the link, and the window is closed. -/
def pressAndClick : List (Event × FetchResult) :=
  [(.keydown .down false, noMesh 0), (.click 5 5, noMesh 1), (.quit, noMesh 2)]

/-- Such a session, replayed. -/
theorem session_replayed_page : ∃ b, opened twoPages (lit "/pages") (lit "/pages/index.mu")
      (fun _ => 0xFF) = some b ∧
    (runScript twoPages b (scriptOf ((recorded twoPages b pressAndClick).map Prod.fst)) (lit "out")
      1 (answers (recorded twoPages b pressAndClick))).browser
      = interact twoPages b pressAndClick := by
  obtain ⟨b, hb⟩ : ∃ b, opened twoPages (lit "/pages") (lit "/pages/index.mu")
      (fun _ => 0xFF) = some b := ⟨_, rfl⟩
  refine ⟨b, hb, session_replayed (fun _ src _ => fixed_twoPages src) hb (fun e he => ?_) _ _⟩
  simp only [pressAndClick, List.mem_cons, List.not_mem_nil, or_false] at he
  obtain rfl | rfl | rfl := he
  · exact fun h => nomatch h
  · exact fun h => nomatch h
  · exact fun h => nomatch h

end Thicket.Desktop
