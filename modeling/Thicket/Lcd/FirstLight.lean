import Thicket.Base.Pacer
import Thicket.Lcd.Painter

/-! # First light

`src/display_bringup.cpp`: `setup` clears the panel and draws a test pattern, `loop` toggles VCOM
once a second by a millisecond counter that wraps. The pattern reaches the panel, stays there, and
VCOM keeps its pace. -/

namespace Thicket.Lcd.FirstLight

open Runs

/-- `VCOM_PERIOD_MS`. -/
def vcomPeriodMs : UInt32 := 1000

/-- A string literal. -/
def ascii (s : String) : List UInt8 := s.toList.map fun c => UInt8.ofNat c.toNat

/-- `W`. -/
def w : UInt16 := UInt16.ofNat lcdWidth
/-- `H`. -/
def h : UInt16 := UInt16.ofNat lcdHeight

/-- `tw`: twelve glyphs. -/
def tw : UInt16 := UInt16.ofNat (bigFontW * 12)
/-- `tx`. -/
def tx : UInt16 := if tw < w then (w - tw) / 2 else 4

/-- The border. -/
def border : List LcdOp :=
  [.drawHline 0 0 w true, .drawHline 0 (h - 1) w true, .fillRect 0 0 1 h true,
    .fillRect (w - 1) 0 1 h true]

/-- The corner blocks, of four sizes. -/
def corners : List LcdOp :=
  [.fillRect 10 10 40 40 true, .fillRect (w - 10 - 24) 10 24 24 true,
    .fillRect 10 (h - 10 - 16) 16 16 true, .fillRect (w - 10 - 8) (h - 10 - 8) 8 8 true]

/-- The dither ramp. -/
def ramp : List LcdOp :=
  (List.range 4).map fun i =>
    .fillDither (UInt16.ofNat (120 + i * 60)) 30 50 40 (UInt8.ofNat (40 + i * 55))

/-- The two lines of text. -/
def captions : List LcdOp :=
  [.drawTextBig tx 130 (ascii "SHARP LCD OK") true,
    .drawText tx (130 + UInt16.ofNat bigFontH + 8) (ascii "border + blocks + text = wiring good")
      true]

/-- **`draw_pattern`.** -/
def drawPattern : List LcdOp := .fillWhite :: (border ++ corners ++ ramp ++ captions) ++ [.flush]

/-- The device. -/
structure Board where
  /-- The driver, and the panel behind its pins. -/
  display : WiredDisplay
  /-- `g_last_vcom_ms`. -/
  lastVcomMs : UInt32 := 0

/-- **`setup`**, as far as the display goes: clear, then the pattern. -/
def setup (F : Fonts) (fb : Image) : Option Board :=
  ((WiredDisplay.powerUp fb).execAll F (.clear :: drawPattern)).map fun display => { display }

/-- **`loop`**, at `millis()`. -/
def loop (b : Board) (now : UInt32) : Board :=
  if now - b.lastVcomMs ≥ vcomPeriodMs then
    { lastVcomMs := now, display := b.display.transact b.display.lcd.toggleVcom }
  else b

/-- The device after some turns of `loop`, at these times since power-up. -/
def turns (b : Board) (ts : List Nat) : Board := run loop b (ts.map Pacer.clock)

/-- The times at which VCOM is toggled. -/
def toggles (ts : List Nat) : List Nat := Pacer.firings vcomPeriodMs 0 ts

/-! ## The pattern -/

/-- Every rectangle of the pattern ends within 16 bits. -/
theorem returns_setup : ∀ op ∈ LcdOp.clear :: drawPattern, op.Returns := by decide

/-- Black stays black under black coats. -/
theorem painted_black {F : Fonts} {picture : Point → Bool} {p : Point} {ops : List LcdOp}
    (h : picture p = true) (hblack : ∀ op ∈ ops, op.colour = true) :
    painted F picture ops p = true := by
  induction ops generalizing picture with
  | nil => exact h
  | cons op ops ih =>
    refine ih ?_ fun op' hop' => hblack op' (List.mem_cons_of_mem op hop')
    rw [coat, hblack op List.mem_cons_self, h, ite_self]

/-- A point under a black coat. -/
theorem painted_of_mem_ink {F : Fonts} {picture : Point → Bool} {p : Point} {ops : List LcdOp}
    {op : LcdOp} (hop : op ∈ ops) (hp : p ∈ op.ink F) (hblack : ∀ op ∈ ops, op.colour = true) :
    painted F picture ops p = true := by
  obtain ⟨pre, post, rfl⟩ := List.append_of_mem hop
  rw [painted, List.foldl_append, List.foldl_cons]
  refine painted_black ?_ fun op' hop' => hblack op' (by simp [hop'])
  rw [coat, if_pos hp, hblack op hop]

/-- Everything the pattern draws is black. -/
theorem colour_drawPattern : ∀ op ∈ border ++ corners ++ ramp ++ captions, op.colour = true := by
  decide

/-- **The border closes the frame**, whatever the fonts. -/
theorem painted_border (F : Fonts) (picture : Point → Bool) {x y : UInt16} (hpanel : OnPanel x y)
    (hedge : x.toNat = 0 ∨ x.toNat = lcdWidth - 1 ∨ y.toNat = 0 ∨ y.toNat = lcdHeight - 1) :
    painted F picture drawPattern (x, y) = true := by
  have hcovered : ∃ op ∈ border, (x, y) ∈ op.ink F := by
    obtain ⟨hx, hy⟩ := hpanel
    simp only [lcdWidth, lcdHeight] at hx hy hedge
    have hw : w.toNat = 400 := rfl
    have hw' : (w - 1).toNat = 399 := rfl
    have hh : h.toNat = 240 := rfl
    have hh' : (h - 1).toNat = 239 := rfl
    simp only [border, List.mem_cons, List.not_mem_nil, or_false, exists_eq_or_imp,
      exists_eq_left, LcdOp.ink, rect, Set.mem_ofPred_eq, UInt16.toNat_zero, UInt16.toNat_one, hw,
      hw', hh, hh']
    omega
  obtain ⟨op, hop, hink⟩ := hcovered
  have hsplit : painted F picture drawPattern
      = coat F (painted F (coat F picture .fillWhite) (border ++ corners ++ ramp ++ captions))
          .flush := by
    rw [drawPattern, painted, List.cons_append, List.foldl_cons, List.foldl_append]
    rfl
  have hmem : op ∈ border ++ corners ++ ramp ++ captions := by simp [hop]
  have hdrawn : painted F (coat F picture .fillWhite) (border ++ corners ++ ramp ++ captions) (x, y)
      = true := painted_of_mem_ink hmem hink colour_drawPattern
  rw [hsplit, coat, hdrawn]
  exact if_neg (Set.notMem_empty _)

/-! ## VCOM -/

/-- **What the device holds**: an image on a panel that agrees with its driver, after `n`
toggles. -/
structure Holds (b : Board) (d : Display) (img : Image) (n : Nat) : Prop where
  /-- The display on the pins is one on the bus. -/
  same : WiredDisplay.Same b.display d
  /-- Driver and panel agree. -/
  linked : d.Linked
  /-- The image. -/
  img_eq : d.panel.img = img
  /-- VCOM has been toggled `n` times. -/
  vcom_eq : d.lcd.vcom = n.bodd

variable {b : Board} {d : Display} {img : Image} {n : Nat}

/-- A toggle leaves the image. -/
theorem Holds.toggleVcom (hb : Holds b d img n) (now : UInt32) :
    Holds { lastVcomMs := now, display := b.display.transact b.display.lcd.toggleVcom }
      (d.transact d.lcd.toggleVcom) img (n + 1) := by
  have hone := hb.same.exec (F := Display.blankFonts) .toggleVcom
  obtain ⟨hlinked, -, himg⟩ := hb.linked.toggleVcom
  obtain ⟨hsame⟩ : Option.Rel WiredDisplay.Same
      (some (b.display.transact b.display.lcd.toggleVcom))
      (some (d.transact d.lcd.toggleVcom)) := hone
  refine ⟨hsame, hlinked, himg.trans hb.img_eq, ?_⟩
  rw [Nat.bodd_succ, ← hb.vcom_eq]
  rfl

/-- **One turn**: VCOM is toggled when it is due. -/
theorem Holds.loop (hb : Holds b d img n) (t : Nat) :
    (loop b (Pacer.clock t)).lastVcomMs = Pacer.turn vcomPeriodMs b.lastVcomMs t ∧
      ∃ d', Holds (FirstLight.loop b (Pacer.clock t)) d' img
        (n + if Pacer.due vcomPeriodMs b.lastVcomMs (Pacer.clock t) then 1 else 0) := by
  unfold FirstLight.loop Pacer.turn Pacer.due
  by_cases hdue : Pacer.clock t - b.lastVcomMs ≥ vcomPeriodMs
  · simp only [hdue, if_true, decide_true]
    exact ⟨trivial, _, hb.toggleVcom _⟩
  · simp only [hdue, if_false, decide_false, Bool.false_eq_true, Nat.add_zero]
    exact ⟨trivial, d, hb⟩

/-- **A run of `loop`**: one toggle at each firing, and the image as it was. -/
theorem Holds.turns (hb : Holds b d img n) (ts : List Nat) :
    ∃ d', Holds (turns b ts) d' img (n + (Pacer.firings vcomPeriodMs b.lastVcomMs ts).length) := by
  induction ts generalizing b d n with
  | nil => exact ⟨d, hb⟩
  | cons t ts ih =>
    obtain ⟨hlast, d', hstep⟩ := hb.loop t
    obtain ⟨d'', hrest⟩ := ih hstep
    have hturns : FirstLight.turns b (t :: ts)
        = FirstLight.turns (FirstLight.loop b (Pacer.clock t)) ts := rfl
    refine ⟨d'', ?_⟩
    rw [hturns, Pacer.firings_cons]
    rw [hlast, Pacer.turn] at hrest
    split
    next hdue => simpa [hdue, Nat.add_assoc, Nat.add_comm 1] using hrest
    next hdue => simpa [hdue] using hrest

/-! ## The device -/

/-- Only `toggle_vcom` changes VCOM. -/
theorem vcom_exec {F : Fonts} {d d' : Display} {op : LcdOp} (hop : op ≠ .toggleVcom)
    (h : d.exec F op = some d') : d'.lcd.vcom = d.lcd.vcom := by
  cases hdraws : op.draws with
  | true => exact ((Display.exec_draws hdraws h).2 d.lcd.fb d.lcd.vcom ⟨fun _ _ _ => rfl, rfl⟩).2
  | false =>
    cases op with
    | fillWhite => exact Option.some.inj h ▸ rfl
    | clear => exact Option.some.inj h ▸ rfl
    | flush =>
      obtain rfl := Option.some.inj h
      unfold Display.transact SharpLcd.flush
      dsimp only
      split <;> rfl
    | toggleVcom => exact absurd rfl hop
    | _ => cases hdraws

/-- So a session without it leaves VCOM. -/
theorem vcom_execAll {F : Fonts} {d d' : Display} {ops : List LcdOp}
    (hops : LcdOp.toggleVcom ∉ ops) (h : d.execAll F ops = some d') :
    d'.lcd.vcom = d.lcd.vcom := by
  induction ops generalizing d with
  | nil => exact Option.some.inj h ▸ rfl
  | cons op ops ih =>
    rw [List.mem_cons, not_or] at hops
    rw [Display.execAll, List.foldlM_cons] at h
    obtain ⟨e, he, hrest⟩ := Option.bind_eq_some_iff.mp h
    rw [ih hops.2 hrest, vcom_exec (Ne.symm hops.1) he]

/-- `setup` leaves the pattern on the panel. -/
theorem exists_setup (F : Fonts) (fb : Image) : ∃ b d, setup F fb = some b ∧
    b.lastVcomMs = 0 ∧ Holds b d d.panel.img 0 ∧
    ∀ x y, OnPanel x y → d.panel.pixel x y = painted F (fun _ => false) drawPattern (x, y) := by
  obtain ⟨w, d, hw, hd, hwd⟩ := WiredDisplay.exists_same_execAll F fb returns_setup
  have hvcom : d.lcd.vcom = false := vcom_execAll (by decide) hd
  refine ⟨{ display := w }, d, by rw [setup, hw]; rfl, rfl,
    ⟨hwd, Display.linked_execAll hd, rfl, hvcom⟩, fun x y hpanel => ?_⟩
  have hpainted := (execAll_paints (F := F) (Display.powerUp fb) _).2 d hd x y hpanel
  have hsync : d.InSync :=
    inSync_execAll rfl (by rfl) (show LcdOp.flush.synchronizes = true by rfl) hd
  rw [← hsync.getPixel_eq]
  refine hpainted.trans ?_
  rw [painted, List.foldl_cons]
  exact congrFun (painted_of_initializes (by rfl) _ _) _

/-- **First light.** Whatever the framebuffer held and whatever the fonts, `setup` returns. From
then on, however many turns `loop` takes and however often the counter wraps, as long as it comes by
every `gap` milliseconds: the panel shows the pattern with its border closed, it has lost no byte
and has the driver's VCOM, the parity of its toggles; those are at least a second apart and less
than a turn more, and no turn is a second behind. -/
theorem first_light (F : Fonts) (fb : Image) {gap first : Nat} {ts : List Nat}
    (hfirst : first < 2 ^ 32) (hpaced : Pacer.Paced gap (first :: ts))
    (hfits : vcomPeriodMs.toNat + gap ≤ 2 ^ 32) : ∃ b, setup F fb = some b ∧
    (∀ x y, OnPanel x y →
      (turns b (first :: ts)).display.receiver.state.pixel x y
          = painted F (fun _ => false) drawPattern (x, y) ∧
        (x.toNat = 0 ∨ x.toNat = lcdWidth - 1 ∨ y.toNat = 0 ∨ y.toNat = lcdHeight - 1 →
          (turns b (first :: ts)).display.receiver.state.pixel x y = true)) ∧
    (turns b (first :: ts)).display.receiver.state.overflowed = false ∧
    (turns b (first :: ts)).display.receiver.state.vcom = (turns b (first :: ts)).display.lcd.vcom ∧
    (turns b (first :: ts)).display.lcd.vcom = (toggles (first :: ts)).length.bodd ∧
    Pacer.Regular vcomPeriodMs.toNat gap (toggles (first :: ts)) ∧
    ∀ t ∈ first :: ts, t < vcomPeriodMs.toNat ∨ ∃ f ∈ toggles (first :: ts),
      f ≤ t ∧ t < f + vcomPeriodMs.toNat := by
  obtain ⟨b, d, hsetup, hlast, hholds, hshows⟩ := exists_setup F fb
  obtain ⟨d', hb⟩ := hholds.turns (first :: ts)
  have hpixel : ∀ x y, OnPanel x y → d'.panel.pixel x y
      = painted F (fun _ => false) drawPattern (x, y) := by
    intro x y hpanel
    rw [VirtualPanel.pixel, hb.img_eq]
    exact hshows x y hpanel
  refine ⟨b, hsetup, ?_⟩
  rw [hb.same.resting.state_eq, hb.same.lcd_eq]
  refine ⟨fun x y hpanel => ⟨hpixel x y hpanel, fun hedge => ?_⟩, hb.linked.not_overflowed,
    hb.linked.vcom_eq, ?_, Pacer.regular_firings_zero (by decide) hfirst hpaced hfits⟩
  · rw [hpixel x y hpanel]
    exact painted_border F _ hpanel hedge
  · rw [hb.vcom_eq, hlast, Nat.zero_add]
    rfl

/-- Turns around the moment the counter wraps. -/
theorem first_light_wraps : ∃ b, setup Display.blankFonts (fun _ => 0x00) = some b ∧
    (turns b [4294967000, 4294967500, 4294968000]).display.receiver.state.overflowed = false := by
  have hpaced : Pacer.Paced 500 [4294967000, 4294967500, 4294968000] := by decide
  obtain ⟨b, hsetup, -, hover, -⟩ := first_light Display.blankFonts (fun _ => 0x00) (by decide)
    hpaced (by decide)
  exact ⟨b, hsetup, hover⟩

end Thicket.Lcd.FirstLight
