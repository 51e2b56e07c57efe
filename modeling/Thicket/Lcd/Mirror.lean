import Mathlib.Data.Nat.Bitwise
import Thicket.Lcd.VirtualPanel

/-! # The panel mirrors the framebuffer

Driver and panel together. A line whose dirty bit is clear is the same in the framebuffer and in
the panel's image: drawing marks what it changes, a flush sends exactly the marked lines, and the
decoder puts each back where it came from. -/

namespace Thicket.Lcd

/-! ## Dirty bits -/

/-- A bit of a byte, as the driver tests it. -/
theorem bit_eq_testBit (b : UInt8) {k : Nat} (hk : k < 8) :
    ((b >>> UInt8.ofNat k) &&& 1 != 0) = b.toNat.testBit k := by
  have hshift : ((b >>> UInt8.ofNat k) &&& 1).toNat = b.toNat >>> k &&& 1 := by
    rw [UInt8.toNat_and, UInt8.toNat_shiftRight, UInt8.toNat_ofNat']
    congr 2
    omega
  rw [Nat.testBit, Nat.and_comm, ← hshift, bne, bne, Bool.not_inj_iff]
  exact (Bool.eq_iff_iff.mpr (by simp [← UInt8.toNat_inj]))

/-- Setting one bit of a byte leaves the others. -/
theorem testBit_or_shift (b : UInt8) {j : Nat} (hj : j < 8) (k : Nat) :
    (b ||| (1 <<< UInt8.ofNat j)).toNat.testBit k = (decide (j = k) || b.toNat.testBit k) := by
  have hone : ((1 : UInt8) <<< UInt8.ofNat j).toNat = 2 ^ j := by
    have hpow : 2 ^ j < 2 ^ 8 := Nat.pow_lt_pow_right (by decide) hj
    rw [UInt8.toNat_shiftLeft, UInt8.toNat_ofNat', UInt8.toNat_one, Nat.one_shiftLeft,
      show j % 2 ^ 8 % 8 = j by omega, Nat.mod_eq_of_lt hpow]
  rw [UInt8.toNat_or, hone, Nat.testBit_or, Nat.testBit_two_pow, Bool.or_comm]

namespace SharpLcd

/-- `is_dirty` reads the line's bit. -/
theorem isDirty_eq (s : SharpLcd) (y : Line) :
    s.isDirty y = (s.dirty (dirtyByte y)).toNat.testBit (y % 8) :=
  bit_eq_testBit _ (Nat.mod_lt _ (by decide))

/-- **`mark_dirty` marks its line and no other.** -/
theorem isDirty_markDirty (s : SharpLcd) (y z : Line) :
    (s.markDirty y).isDirty z = (decide (y = z) || s.isDirty z) := by
  rw [isDirty_eq, isDirty_eq, markDirty]
  by_cases hbyte : dirtyByte z = dirtyByte y
  · have hdiv : z.val / 8 = y.val / 8 := congrArg Fin.val hbyte
    have hline : (y.val % 8 = z.val % 8) ↔ y = z := by
      rw [Fin.ext_iff]
      omega
    simp only [hbyte, Function.update_self]
    rw [testBit_or_shift _ (Nat.mod_lt _ (by decide)), decide_eq_decide.mpr hline]
  · have hne : y ≠ z := fun h => hbyte (by rw [h])
    simp [Function.update_of_ne hbyte, hne]

/-- After `fill_white` every line is dirty. -/
theorem isDirty_fillWhite (s : SharpLcd) (y : Line) : s.fillWhite.isDirty y = true := by
  have hbit : ∀ k < 8, (255 : Nat).testBit k = true := by decide
  rw [isDirty_eq]
  exact hbit _ (Nat.mod_lt _ (by decide))

@[simp] theorem markDirty_fb (s : SharpLcd) (y : Line) : (s.markDirty y).fb = s.fb := rfl

@[simp] theorem markDirty_vcom (s : SharpLcd) (y : Line) : (s.markDirty y).vcom = s.vcom := rfl

end SharpLcd

/-! ## Drawing -/

/-- Different places on the panel are different bytes. -/
theorem byteIndex_inj {y z : Line} {j k : Fin lcdLineBytes} (h : byteIndex y j = byteIndex z k) :
    y = z ∧ j = k := by
  have hval : y.val * lcdLineBytes + j.val = z.val * lcdLineBytes + k.val := congrArg Fin.val h
  have hj := j.2
  have hk := k.2
  simp only [lcdLineBytes] at hval hj hk
  exact ⟨Fin.ext (by omega), Fin.ext (by omega)⟩

/-- Every byte of an image is on a line. -/
theorem exists_byteIndex (i : Fin lcdFbBytes) : ∃ y k, byteIndex y k = i := by
  have hi := i.2
  unfold lcdFbBytes at hi
  refine ⟨⟨i / 50, by unfold lcdHeight; omega⟩, ⟨i % 50, Nat.mod_lt _ (by decide)⟩, Fin.ext ?_⟩
  exact Nat.div_add_mod' i.val 50

/-- **The mirror**: a line that is not dirty is the same in the framebuffer and in the image. -/
def Mirrors (img : Image) (s : SharpLcd) : Prop :=
  ∀ y, s.isDirty y = false → ∀ k, s.fb (byteIndex y k) = img (byteIndex y k)

/-- What drawing keeps: the mirror, and the driver's VCOM. -/
def Drawn (img : Image) (vcom : Bool) (s : SharpLcd) : Prop := Mirrors img s ∧ s.vcom = vcom

variable {img : Image} {vcom : Bool} {s : SharpLcd}

/-- A byte is written and its line marked when it changes. -/
theorem Drawn.setByte (h : Drawn img vcom s) (y : Line) (k : Fin lcdLineBytes) (b : UInt8) :
    Drawn img vcom (if b ≠ s.fb (byteIndex y k) then
      { s with fb := Function.update s.fb (byteIndex y k) b }.markDirty y
      else { s with fb := Function.update s.fb (byteIndex y k) b }) := by
  split
  next =>
    refine ⟨fun z hz j => ?_, h.2⟩
    rw [SharpLcd.isDirty_markDirty, Bool.or_eq_false_iff] at hz
    have hne : y ≠ z := of_decide_eq_false hz.1
    have hother : byteIndex z j ≠ byteIndex y k := fun heq => hne (byteIndex_inj heq).1.symm
    exact (Function.update_of_ne hother b s.fb).trans (h.1 z hz.2 j)
  next hsame =>
    rw [not_not.mp hsame, Function.update_eq_self]
    exact h

/-- **One pixel**: the only line that changes is marked. -/
theorem Drawn.setPixel (h : Drawn img vcom s) (x y : UInt16) (black : Bool) :
    Drawn img vcom (s.setPixel x y black) := by
  unfold SharpLcd.setPixel
  split
  next => exact h.setByte _ _ _
  next => exact h

/-- A fold of drawing steps draws. -/
theorem drawn_foldl {α : Type} {f : SharpLcd → α → SharpLcd}
    (hf : ∀ s a, Drawn img vcom s → Drawn img vcom (f s a)) (as : List α)
    (h : Drawn img vcom s) : Drawn img vcom (as.foldl f s) := by
  induction as generalizing s with
  | nil => exact h
  | cons a as ih => exact ih (hf s a h)

/-- The ink of a glyph is pixels. -/
theorem Drawn.drawInk (h : Drawn img vcom s) (bits : Nat → Nat) (height w top : Nat)
    (x y : UInt16) (black : Bool) :
    Drawn img vcom (SharpLcd.drawInk bits height w top x y black s) := by
  refine drawn_foldl (fun s row hs => ?_) _ h
  split
  · exact hs
  · refine drawn_foldl (fun s col hs => ?_) _ hs
    split
    · exact hs.setPixel _ _ _
    · exact hs

/-- A string is its glyphs. -/
theorem Drawn.drawRun {glyph : UInt32 → UInt16 → SharpLcd → SharpLcd}
    (hglyph : ∀ cp x s, Drawn img vcom s → Drawn img vcom (glyph cp x s)) (advance : Nat)
    (x : UInt16) (text : List UInt8) (h : Drawn img vcom s) :
    Drawn img vcom (SharpLcd.drawRun glyph advance x text s).2 := by
  unfold SharpLcd.drawRun
  generalize codepoints text = cps
  induction cps generalizing x s with
  | nil => exact h
  | cons cp cps ih => exact ih _ (hglyph cp x s h)

variable (F : Fonts)

/-- `draw_text` draws. -/
theorem Drawn.drawText (h : Drawn img vcom s) (x y : UInt16) (text : List UInt8) (black : Bool) :
    Drawn img vcom (s.drawText F x y text black).2 :=
  Drawn.drawRun (fun _ _ _ hs => hs.drawInk _ _ _ _ _ _ _) _ _ _ h

/-- `draw_text_scaled` draws. -/
theorem Drawn.drawTextScaled (h : Drawn img vcom s) (x y : UInt16) (text : List UInt8)
    (black : Bool) (scale : UInt8) :
    Drawn img vcom (s.drawTextScaled F x y text black scale).2 := by
  unfold SharpLcd.drawTextScaled
  split
  · exact h.drawText F x y text black
  · refine Drawn.drawRun (fun cp x s hs => ?_) _ _ _ h
    split
    · exact hs
    · refine drawn_foldl (fun s row hs => ?_) _ hs
      split
      · exact hs
      · refine drawn_foldl (fun s col hs => ?_) _ hs
        split
        · exact drawn_foldl (fun s sy hs =>
            drawn_foldl (fun s sx hs => hs.setPixel _ _ _) _ hs) _ hs
        · exact hs

/-- `draw_text_big` draws. -/
theorem Drawn.drawTextBig (h : Drawn img vcom s) (x y : UInt16) (text : List UInt8)
    (black : Bool) : Drawn img vcom (s.drawTextBig F x y text black).2 := by
  refine Drawn.drawRun (fun cp x s hs => ?_) _ _ _ h
  split
  · exact hs
  · exact hs.drawInk _ _ _ _ _ _ _

/-- `draw_text_bold` draws. -/
theorem Drawn.drawTextBold (h : Drawn img vcom s) (x y : UInt16) (text : List UInt8)
    (face : BoldFace) (black : Bool) :
    Drawn img vcom (s.drawTextBold F x y text face black).2 := by
  refine Drawn.drawRun (fun cp x s hs => ?_) _ _ _ h
  split
  · exact hs
  · exact hs.drawInk _ _ _ _ _ _ _

/-- `draw_hline` draws, when it returns. -/
theorem Drawn.drawHline (h : Drawn img vcom s) {x y w : UInt16} {black : Bool} {t : SharpLcd}
    (ht : s.drawHline x y w black = some t) : Drawn img vcom t :=
  forU16_invariant (Drawn img vcom) (fun _ _ _ hs he => Option.some.inj he ▸ hs.setPixel _ _ _) h ht

/-- `fill_rect` draws, when it returns. -/
theorem Drawn.fillRect (h : Drawn img vcom s) {x y w height : UInt16} {black : Bool} {t : SharpLcd}
    (ht : s.fillRect x y w height black = some t) : Drawn img vcom t :=
  forU16_invariant (Drawn img vcom) (fun _ _ _ hs he => hs.drawHline he) h ht

/-- `fill_dither` draws. -/
theorem Drawn.fillDither (h : Drawn img vcom s) {x y w height : UInt16} {level : UInt8}
    {t : SharpLcd} (ht : s.fillDither x y w height level = some t) : Drawn img vcom t := by
  unfold SharpLcd.fillDither at ht
  split at ht
  · exact Option.some.inj ht ▸ h
  · refine forU16_invariant (Drawn img vcom) (fun _ s t hs he => ?_) h ht
    refine forU16_invariant (Drawn img vcom) (fun _ s t hs he => ?_) hs he
    rw [← Option.some.inj he]
    split
    · exact hs.setPixel _ _ _
    · exact hs

end Thicket.Lcd
