import Thicket.Lcd.SoftSpi
import Thicket.Lcd.TextInk

/-! # What a session leaves on the panel

Every operation of the driver is a coat of one colour over a set of points, so a session is a
painting: each pixel has the colour of the last coat over it. That is what the driver reads back,
and after a `flush` or a `clear` it is what the panel shows, also behind the three pins. -/

namespace Thicket.Lcd

open scoped Classical

namespace LcdOp

variable (F : Fonts)

/-- The points that an operation covers. -/
def ink : LcdOp → Set Point
  | setPixel x y _ => {(x, y)}
  | fillRect x y w h _ => rect x y w h
  | fillDither x y w h level => rect x y w h ∩ dithered level
  | drawHline x y w _ => rect x y w 1
  | drawText x y text _ => wrap '' TextCall.plain.ink F x.toNat y.toNat text
  | drawTextScaled x y text _ scale => wrap '' (TextCall.scaled scale).ink F x.toNat y.toNat text
  | drawTextBig x y text _ => wrap '' TextCall.big.ink F x.toNat y.toNat text
  | drawTextBold x y text face _ => wrap '' (TextCall.bold face).ink F x.toNat y.toNat text
  | fillWhite | clear => Set.univ
  | toggleVcom | flush => ∅

/-- The colour of its coat, `true` for black. -/
def colour : LcdOp → Bool
  | setPixel _ _ black | fillRect _ _ _ _ black | drawHline _ _ _ black | drawText _ _ _ black
  | drawTextScaled _ _ _ black _ | drawTextBig _ _ _ black | drawTextBold _ _ _ _ black => black
  | fillDither .. => true
  | fillWhite | clear | toggleVcom | flush => false

/-- **When it returns**: the far edges of a rectangle are 16-bit values. -/
def Returns : LcdOp → Prop
  | fillRect x y w h _ => y.toNat + h.toNat ≤ 65535 ∧ (h = 0 ∨ x.toNat + w.toNat ≤ 65535)
  | drawHline x _ w _ => x.toNat + w.toNat ≤ 65535
  | _ => True

instance : (op : LcdOp) → Decidable op.Returns
  | fillRect .. => inferInstanceAs (Decidable (_ ∧ _))
  | drawHline .. => inferInstanceAs (Decidable (_ ≤ _))
  | setPixel .. | fillDither .. | drawText .. | drawTextScaled .. | drawTextBig .. | drawTextBold ..
  | fillWhite | clear | toggleVcom | flush => .isTrue trivial

end LcdOp

/-- One coat. -/
noncomputable def coat (F : Fonts) (picture : Point → Bool) (op : LcdOp) : Point → Bool :=
  fun p => if p ∈ op.ink F then op.colour else picture p

/-- **The painting of a session** over a picture. -/
noncomputable def painted (F : Fonts) (picture : Point → Bool) (ops : List LcdOp) : Point → Bool :=
  ops.foldl (coat F) picture

/-- What the driver reads back. -/
def SharpLcd.picture (s : SharpLcd) : Point → Bool := fun p => s.getPixel p.1 p.2

/-- A picture is only looked at on the panel. -/
def SameOnPanel (a b : Point → Bool) : Prop := ∀ x y, OnPanel x y → a (x, y) = b (x, y)

variable {F : Fonts}

/-- Coats over pictures that agree agree. -/
theorem SameOnPanel.coat {a b : Point → Bool} (h : SameOnPanel a b) (op : LcdOp) :
    SameOnPanel (coat F a op) (coat F b op) := by
  intro x y hpanel
  rw [Lcd.coat, Lcd.coat, h x y hpanel]

/-- So do paintings over them. -/
theorem SameOnPanel.painted {a b : Point → Bool} (h : SameOnPanel a b) (ops : List LcdOp) :
    SameOnPanel (painted F a ops) (painted F b ops) := by
  induction ops generalizing a b with
  | nil => exact h
  | cons op ops ih => exact ih (h.coat op)

/-- Inking is a coat. -/
theorem Inks.coat {ink : Set Point} {black : Bool} {s t : SharpLcd} (h : Inks ink black s t)
    (op : LcdOp) (hink : op.ink F = ink) (hcolour : op.colour = black) :
    SameOnPanel t.picture (coat F s.picture op) := by
  intro x y hpanel
  rw [Lcd.coat, hink, hcolour]
  split
  next hin => exact h.inside x y hpanel hin
  next hout => exact h.outside x y fun hin => hout hin.2

/-- A white framebuffer is a white coat over everything. -/
theorem sameOnPanel_white {s t : SharpLcd} (h : t.fb = fun _ => 0xFF) {op : LcdOp}
    (hink : op.ink F = Set.univ) (hcolour : op.colour = false) :
    SameOnPanel t.picture (coat F s.picture op) := by
  intro x y _
  rw [coat, hink, hcolour, if_pos (Set.mem_univ _)]
  exact getPixel_of_white h x y

/-- An operation that leaves the framebuffer covers nothing. -/
theorem sameOnPanel_unchanged {s t : SharpLcd} (h : t.fb = s.fb) {op : LcdOp}
    (hink : op.ink F = ∅) : SameOnPanel t.picture (coat F s.picture op) := by
  intro x y _
  rw [coat, hink, if_neg (Set.notMem_empty _), SharpLcd.picture, SharpLcd.picture,
    SharpLcd.getPixel, h]
  rfl

/-- **One operation**: it returns when its rectangle ends within 16 bits, and paints its coat. -/
theorem run_paints (s : SharpLcd) (op : LcdOp) :
    (op.Returns → ∃ r, op.run F s = some r ∧ SameOnPanel r.2.picture (coat F s.picture op)) ∧
      (¬ op.Returns → op.run F s = none) := by
  cases op with
  | setPixel x y black =>
    exact ⟨fun _ => ⟨_, rfl, (inks_setPixel s x y black).coat _ rfl rfl⟩, fun h => absurd trivial h⟩
  | fillRect x y w h black =>
    refine ⟨fun hfits => ?_, fun hno => ?_⟩
    · obtain ⟨t, ht, hink⟩ := fills_fillRect hfits.1 hfits.2 black s
      exact ⟨([], t), by rw [LcdOp.run]; exact congrArg (Option.map _) ht, hink.coat _ rfl rfl⟩
    · rw [LcdOp.run, fillRect_eq_none hno black s]
      rfl
  | fillDither x y w h level =>
    refine ⟨fun _ => ?_, fun hno => absurd trivial hno⟩
    obtain ⟨t, ht, hink⟩ := fills_fillDither x y w h level s
    exact ⟨([], t), by rw [LcdOp.run]; exact congrArg (Option.map _) ht, hink.coat _ rfl rfl⟩
  | drawHline x y w black =>
    refine ⟨fun hfits => ?_, fun hno => ?_⟩
    · obtain ⟨t, ht, hink⟩ := fills_drawHline hfits y black s
      exact ⟨([], t), by rw [LcdOp.run]; exact congrArg (Option.map _) ht, hink.coat _ rfl rfl⟩
    · rw [LcdOp.run, drawHline_eq_none hno y black s]
      rfl
  | drawText x y text black =>
    exact ⟨fun _ => ⟨_, rfl, (TextCall.inks_draw F .plain x y text black s).coat _ rfl rfl⟩,
      fun h => absurd trivial h⟩
  | drawTextScaled x y text black scale =>
    exact ⟨fun _ =>
        ⟨_, rfl, (TextCall.inks_draw F (.scaled scale) x y text black s).coat _ rfl rfl⟩,
      fun h => absurd trivial h⟩
  | drawTextBig x y text black =>
    exact ⟨fun _ => ⟨_, rfl, (TextCall.inks_draw F .big x y text black s).coat _ rfl rfl⟩,
      fun h => absurd trivial h⟩
  | drawTextBold x y text face black =>
    exact ⟨fun _ => ⟨_, rfl, (TextCall.inks_draw F (.bold face) x y text black s).coat _ rfl rfl⟩,
      fun h => absurd trivial h⟩
  | fillWhite => exact ⟨fun _ => ⟨_, rfl, sameOnPanel_white rfl rfl rfl⟩, fun h => absurd trivial h⟩
  | clear => exact ⟨fun _ => ⟨_, rfl, sameOnPanel_white rfl rfl rfl⟩, fun h => absurd trivial h⟩
  | toggleVcom =>
    exact ⟨fun _ => ⟨_, rfl, sameOnPanel_unchanged rfl rfl⟩, fun h => absurd trivial h⟩
  | flush =>
    refine ⟨fun _ => ⟨_, rfl, sameOnPanel_unchanged ?_ rfl⟩, fun h => absurd trivial h⟩
    unfold SharpLcd.flush
    dsimp only
    split <;> rfl

/-! ## Sessions -/

/-- **A session of the driver**: it returns when every rectangle ends within 16 bits, and leaves
the painting in the framebuffer. -/
theorem execAll_paints (d : Display) (ops : List LcdOp) :
    ((d.execAll F ops).isSome = true ↔ ∀ op ∈ ops, op.Returns) ∧
      ∀ d', d.execAll F ops = some d' →
        SameOnPanel d'.lcd.picture (painted F d.lcd.picture ops) := by
  induction ops generalizing d with
  | nil => exact ⟨by simp [Display.execAll], fun d' h => Option.some.inj h ▸ fun _ _ _ => rfl⟩
  | cons op ops ih =>
    obtain ⟨hreturns, hhangs⟩ := run_paints (F := F) d.lcd op
    rw [Display.execAll, List.foldlM_cons, exec_eq_run, List.forall_mem_cons]
    by_cases hop : op.Returns
    · obtain ⟨r, hr, hpaint⟩ := hreturns hop
      obtain ⟨hall, hrest⟩ := ih (d.transact r)
      rw [hr]
      refine ⟨hall.trans (and_iff_right hop).symm, fun d' hd' x y hpanel => ?_⟩
      -- the rest paints over what this operation painted
      exact (hrest d' hd' x y hpanel).trans (hpaint.painted ops x y hpanel)
    · rw [hhangs hop]
      exact ⟨by simp [hop], by simp⟩

/-- From a coat over everything on, it does not matter what was there. -/
theorem painted_of_initializes {ops : List LcdOp} (h : ops.any LcdOp.initializes = true)
    (a b : Point → Bool) : painted F a ops = painted F b ops := by
  obtain ⟨op, hop, hinit⟩ := List.any_eq_true.mp h
  obtain ⟨pre, post, rfl⟩ := List.append_of_mem hop
  have hcovers (c : Point → Bool) : coat F c op = fun _ => op.colour := by
    funext p
    cases op with
    | fillWhite => exact if_pos (Set.mem_univ p)
    | clear => exact if_pos (Set.mem_univ p)
    | _ => cases hinit
  simp only [painted, List.foldl_append, List.foldl_cons, hcovers]

/-- A session that ends in a `flush` or a `clear` leaves the panel in sync. -/
theorem inSync_execAll {fb : Image} {ops : List LcdOp} {d : Display}
    (hinit : ops.any LcdOp.initializes = true) {last : LcdOp} (hlast : ops.getLast? = some last)
    (hsync : last.synchronizes = true) (h : (Display.powerUp fb).execAll F ops = some d) :
    d.InSync := by
  obtain ⟨ops, rfl⟩ := List.getLast?_eq_some_iff.mp hlast
  rw [Display.execAll_append_singleton] at h
  obtain ⟨e, he, hop⟩ := Option.bind_eq_some_iff.mp h
  refine Display.inSync_of_synchronizes (Display.linked_execAll he) hsync (fun hno => ?_) hop
  refine Display.mirrored_execAll ?_ he
  simpa [hno] using hinit

namespace WiredDisplay

/-- Pins and bus are the same at power-up. -/
theorem same_powerUp (fb : Image) : Same (powerUp fb) (Display.powerUp fb) :=
  ⟨rfl, rfl, rfl, rfl, rfl⟩

/-- A session that returns on the bus returns on the pins. -/
theorem exists_same_execAll (F : Fonts) (fb : Image) {ops : List LcdOp}
    (hreturns : ∀ op ∈ ops, op.Returns) : ∃ w d, (powerUp fb).execAll F ops = some w ∧
      (Display.powerUp fb).execAll F ops = some d ∧ Same w d := by
  obtain ⟨d, hd⟩ := Option.isSome_iff_exists.mp
    ((execAll_paints (F := F) (Display.powerUp fb) ops).1.mpr hreturns)
  have hsame := (same_powerUp fb).execAll (F := F) ops
  revert hsame
  rw [hd]
  generalize (powerUp fb).execAll F ops = w
  rintro (hwd | _)
  exact ⟨_, d, rfl, rfl, hwd⟩

/-- **The pins show the painting.** A session of the driver, its bytes shifted out bit by bit,
returns when every rectangle ends within 16 bits. Then the driver reads back the painting, the panel
has lost no byte and agrees about VCOM; and if a `fill_white` or a `clear` came first and a `flush`
or a `clear` last, the panel shows the painting, pixel for pixel. -/
theorem pins_show_the_painting (F : Fonts) (fb : Image) (ops : List LcdOp) :
    (((powerUp fb).execAll F ops).isSome = true ↔ ∀ op ∈ ops, op.Returns) ∧
    ∀ w, (powerUp fb).execAll F ops = some w →
      (∀ x y, OnPanel x y →
        w.lcd.getPixel x y = painted F (fun p => fb.pixel p.1 p.2) ops (x, y)) ∧
      w.receiver.state.vcom = w.lcd.vcom ∧ w.receiver.state.overflowed = false ∧
      (ops.any LcdOp.initializes = true → ∀ last ∈ ops.getLast?, last.synchronizes = true →
        ∀ x y, OnPanel x y →
          w.receiver.state.pixel x y = painted F (fun _ => false) ops (x, y)) := by
  obtain ⟨hreturns, hpaints⟩ := execAll_paints (F := F) (Display.powerUp fb) ops
  by_cases hall : ∀ op ∈ ops, op.Returns
  · obtain ⟨w, d, hw, hd, hwd⟩ := exists_same_execAll F fb hall
    have hlinked := Display.linked_execAll hd
    refine ⟨by simpa [hw] using hall, fun w' hw' => ?_⟩
    obtain rfl := Option.some.inj (hw.symm.trans hw')
    rw [hwd.lcd_eq, hwd.resting.state_eq]
    refine ⟨hpaints d hd, hlinked.vcom_eq, hlinked.not_overflowed,
      fun hinit last hlast hsync x y hpanel => ?_⟩
    have hpainted := hpaints d hd x y hpanel
    rw [← (inSync_execAll hinit hlast hsync hd).getPixel_eq,
      ← painted_of_initializes hinit (Display.powerUp fb).lcd.picture (fun _ => false)]
    exact hpainted
  · -- on the bus the session does not return, and so it does not on the pins
    have hsame := (same_powerUp fb).execAll (F := F) ops
    rw [Option.not_isSome_iff_eq_none.mp fun h => hall (hreturns.mp h)] at hsame
    generalize (powerUp fb).execAll F ops = w at hsame
    cases hsame
    exact ⟨by simpa using hall, by simp⟩

/-- One dot on a cleared panel, and no other beside it. -/
theorem pins_show_a_dot : ∃ w,
    (powerUp fun _ => 0x00).execAll Display.blankFonts [.clear, .setPixel 3 2 true, .flush]
        = some w ∧
      w.receiver.state.pixel 3 2 = true ∧ w.receiver.state.pixel 4 2 = false := by
  obtain ⟨hreturns, hshows⟩ := pins_show_the_painting Display.blankFonts (fun _ => 0x00)
    [.clear, .setPixel 3 2 true, .flush]
  obtain ⟨w, hw⟩ := Option.isSome_iff_exists.mp (hreturns.mpr (by simp [LcdOp.Returns]))
  have hpixel := (hshows w hw).2.2.2 rfl .flush rfl rfl
  refine ⟨w, hw, ?_, ?_⟩
  · rw [hpixel 3 2 (by decide)]
    simp [painted, coat, LcdOp.ink, LcdOp.colour]
  · rw [hpixel 4 2 (by decide)]
    simp [painted, coat, LcdOp.ink, LcdOp.colour]

end WiredDisplay

end Thicket.Lcd
