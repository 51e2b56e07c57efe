import Thicket.Lcd.TextInk

/-! # Scaled text

`draw_text_scaled` has a glyph loop of its own: every dot of the body face is a square, and the
advance grows with it. On a white picture the result is `draw_text` blown up, as long as the face
carries the codepoints: where it does not, `draw_text` draws the box and `draw_text_scaled`, from a
scale of two on, draws nothing. -/

namespace Thicket.Lcd

namespace TextCall

variable (F : Fonts)

/-- The picture is black at a place; off the panel it is not. -/
def BlackAt (s : SharpLcd) (x y : Nat) : Prop :=
  (x < lcdWidth ∧ y < lcdHeight) ∧ s.getPixel (UInt16.ofNat x) (UInt16.ofNat y) = true

/-- The ink of a string stays on the panel. -/
def StaysOnPanel (call : TextCall) (x y : Nat) (text : List UInt8) : Prop :=
  ∀ p ∈ call.ink F x y text, p.1 < lcdWidth ∧ p.2 < lcdHeight

/-- **Black text on white is black where its ink is.** -/
theorem blackAt_draw_iff {call : TextCall} {x y : UInt16} {text : List UInt8}
    (hstays : StaysOnPanel F call x.toNat y.toNat text) (s : SharpLcd) (X Y : Nat) :
    BlackAt (call.draw F s.fillWhite x y text true).2 X Y ↔
      (X, Y) ∈ call.ink F x.toNat y.toNat text := by
  have hclipped := clipped_of_noReturn (x := x) (y := y) (noReturn_of_ink_lt F fun p hp =>
    ⟨(hstays p hp).1.trans (by decide), (hstays p hp).2.trans (by decide)⟩)
  have hinks := hclipped.inks true s.fillWhite
  -- on the panel nothing is cut off
  have hcut : X < lcdWidth ∧ Y < lcdHeight →
      (UInt16.ofNat X).toNat = X ∧ (UInt16.ofNat Y).toNat = Y := fun h =>
    ⟨UInt16.toNat_ofNat_of_lt' (h.1.trans (by decide)),
      UInt16.toNat_ofNat_of_lt' (h.2.trans (by decide))⟩
  constructor
  · rintro ⟨hpanel, hblack⟩
    obtain ⟨hX, hY⟩ := hcut hpanel
    by_contra hno
    have hwhite := hinks.outside (UInt16.ofNat X) (UInt16.ofNat Y) fun h => hno (by
      have hseen := mem_seen.mp h.2
      rwa [hX, hY] at hseen)
    rw [hblack, getPixel_of_white rfl] at hwhite
    exact Bool.noConfusion hwhite
  · intro hink
    have hpanel : X < lcdWidth ∧ Y < lcdHeight := hstays _ hink
    obtain ⟨hX, hY⟩ := hcut hpanel
    refine ⟨hpanel, hinks.inside _ _ ⟨hX.symm ▸ hpanel.1, hY.symm ▸ hpanel.2⟩ ?_⟩
    rwa [mem_seen, hX, hY]

/-- The ink of a string moves with its origin. -/
theorem mem_ink_add {call : TextCall} {x y a b : Nat} {text : List UInt8} :
    (x + a, y + b) ∈ call.ink F x y text ↔ (a, b) ∈ call.ink F 0 0 text := by
  have hplaced : ∀ (i : Nat) (d : Spot),
      (x + a, y + b) = (x + i * call.advance + d.1, y + d.2)
        ↔ (a, b) = (0 + i * call.advance + d.1, 0 + d.2) := by
    intro i d
    rw [Prod.mk.injEq, Prod.mk.injEq]
    omega
  simp only [ink, placed, Set.mem_ofPred_eq, hplaced]

/-- The ink of the codepoints that the body face carries, unscaled. -/
def carriedInk (text : List UInt8) : Set Spot :=
  {p | ∃ i cp, (codepoints text)[i]? = some cp ∧ p ∈ placed (0 + i * fontW) 0 (carriedDots F cp)}

/-- **Scaled ink is carried ink blown up.** -/
theorem mem_ink_scaled {k : UInt8} (hk : ¬ k ≤ 1) {text : List UInt8} (a b : Nat) :
    (a, b) ∈ (TextCall.scaled k).ink F 0 0 text ↔
      (a / k.toNat, b / k.toNat) ∈ carriedInk F text := by
  have hpos : 0 < k.toNat := by
    have hlt := UInt8.lt_iff_toNat_lt.mp (UInt8.not_le.mp hk)
    omega
  simp only [ink, carriedInk, advance, dots, if_neg hk, placed, Set.mem_ofPred_eq, scaledDots]
  constructor
  · rintro ⟨i, cp, hcp, d, hd, hp⟩
    obtain ⟨rfl, rfl⟩ := Prod.mk.inj hp
    refine ⟨i, cp, hcp, _, hd, Prod.ext ?_ ?_⟩
    · dsimp only
      rw [Nat.zero_add, Nat.zero_add, ← Nat.mul_assoc, Nat.mul_comm (i * fontW),
        Nat.mul_add_div hpos]
    · dsimp only
      rw [Nat.zero_add, Nat.zero_add]
  · rintro ⟨i, cp, hcp, d, hd, hp⟩
    obtain ⟨ha, hb⟩ := Prod.mk.inj hp
    rw [Nat.zero_add] at ha hb
    -- the square of the dot that covers the place
    have hle : i * (fontW * k.toNat) ≤ a := by
      have hmul : i * fontW * k.toNat ≤ a :=
        (Nat.le_div_iff_mul_le hpos).mp (ha ▸ Nat.le_add_right _ _)
      rwa [Nat.mul_assoc] at hmul
    have hcol : (a - i * (fontW * k.toNat)) / k.toNat = d.1 := by
      rw [← Nat.mul_assoc, Nat.mul_comm (i * fontW), Nat.sub_mul_div, ha, Nat.add_sub_cancel_left]
    refine ⟨i, cp, hcp, (a - i * (fontW * k.toNat), b), ?_, Prod.ext ?_ ?_⟩
    · dsimp only
      rwa [hcol, hb]
    · dsimp only
      omega
    · exact (Nat.zero_add b).symm

/-- A codepoint that is carried has its dots. -/
theorem bodyDots_of_carried {cp : UInt32} (h : (glyphFor F cp).isSome) :
    bodyDots F cp = carriedDots F cp := by
  obtain ⟨g, hg⟩ := Option.isSome_iff_exists.mp h
  simp [bodyDots, carriedDots, hg]

/-- **The box of a codepoint that is not carried is bare**: no neighbour's ink reaches its first
dot. -/
theorem box_not_carried {text : List UInt8} {n : Nat} {cp : UInt32}
    (hcp : (codepoints text)[n]? = some cp) (hno : glyphFor F cp = none) :
    (n * fontW + 1, 4) ∉ carriedInk F text := by
  rintro ⟨i, cp', hcp', d, ⟨g, hg, hd⟩, hp⟩
  have hcol := congrArg Prod.fst hp
  have hwide := hd.2.1
  simp only [fontW, fontInkW] at hcol hwide
  -- a cell is six columns wide and its ink seven, so only the codepoint itself reaches column one
  obtain rfl : i = n := by omega
  rw [hcp] at hcp'
  obtain rfl := Option.some.inj hcp'
  rw [hno] at hg
  cases hg

/-- The box is part of the plain ink. -/
theorem box_mem_ink {text : List UInt8} {n : Nat} {cp : UInt32}
    (hcp : (codepoints text)[n]? = some cp) (hno : glyphFor F cp = none) :
    (n * fontW + 1, 4) ∈ TextCall.plain.ink F 0 0 text := by
  refine ⟨n, cp, hcp, (1, 4), ?_, by rw [Nat.zero_add]; rfl⟩
  rw [dots, bodyDots, hno]
  exact ⟨by decide, by decide, by decide⟩

/-- The pen behind a string. -/
theorem draw_fst (call : TextCall) (s : SharpLcd) (x y : UInt16) (text : List UInt8)
    (black : Bool) : (call.draw F s x y text black).1
      = x + UInt16.ofNat ((codepoints text).length * call.advance) := by
  rw [draw_eq, SharpLcd.drawRun]
  induction codepoints text generalizing x s with
  | nil =>
    rw [List.length_nil, Nat.zero_mul]
    exact (UInt16.add_zero x).symm
  | cons cp cps ih =>
    rw [List.foldl_cons, ih, List.length_cons, Nat.succ_mul, UInt16.ofNat_add, UInt16.add_assoc,
      UInt16.add_comm (UInt16.ofNat call.advance)]

/-- **Scaled text is the plain text blown up**, on a white picture. -/
structure BlownUp (x y : UInt16) (text : List UInt8) (k : UInt8) : Prop where
  /-- Every pixel of the scaled text is the pixel of the plain text that it is part of. -/
  pixels : ∀ (s : SharpLcd) (i j : Nat),
    BlackAt (s.fillWhite.drawTextScaled F x y text true k).2 (x.toNat + i) (y.toNat + j) ↔
      BlackAt (s.fillWhite.drawText F x y text true).2 (x.toNat + i / k.toNat)
        (y.toNat + j / k.toNat)
  /-- The advance is `k` times as large, in the 16 bits it is returned in. -/
  advance : ∀ s : SharpLcd, (s.drawTextScaled F x y text true k).1 - x
    = k.toUInt16 * ((s.drawText F x y text true).1 - x)
  /-- So it is as a number, when the scaled text ends within 16 bits. -/
  advance_toNat : ∀ s : SharpLcd,
    x.toNat + (codepoints text).length * (fontW * k.toNat) < 65536 →
    (s.drawTextScaled F x y text true k).1.toNat - x.toNat
      = k.toNat * ((s.drawText F x y text true).1.toNat - x.toNat)

/-- The advance of a scaled codepoint. -/
theorem advance_scaled {k : UInt8} (hk : 1 ≤ k) :
    (TextCall.scaled k).advance = fontW * k.toNat := by
  rw [TextCall.advance]
  split
  next hone =>
    obtain rfl : k = 1 := UInt8.le_antisymm hone hk
    rfl
  next => rfl

/-- **The scaled advance.** -/
theorem scaled_fst {k : UInt8} (hk : 1 ≤ k) (s : SharpLcd) (x y : UInt16) (text : List UInt8) :
    (s.drawTextScaled F x y text true k).1
      = x + UInt16.ofNat ((codepoints text).length * (fontW * k.toNat)) := by
  rw [← advance_scaled hk]
  exact draw_fst F (.scaled k) s x y text true

/-- The pixels agree when the inks do. -/
theorem pixels_iff {x y : UInt16} {text : List UInt8} {k : UInt8}
    (hplain : StaysOnPanel F .plain x.toNat y.toNat text)
    (hscaled : StaysOnPanel F (.scaled k) x.toNat y.toNat text) (s : SharpLcd) (i j : Nat) :
    (BlackAt (s.fillWhite.drawTextScaled F x y text true k).2 (x.toNat + i) (y.toNat + j) ↔
      BlackAt (s.fillWhite.drawText F x y text true).2 (x.toNat + i / k.toNat)
        (y.toNat + j / k.toNat)) ↔
    ((i, j) ∈ (TextCall.scaled k).ink F 0 0 text ↔
      (i / k.toNat, j / k.toNat) ∈ TextCall.plain.ink F 0 0 text) := by
  have hs := blackAt_draw_iff F hscaled s (x.toNat + i) (y.toNat + j)
  have hp := blackAt_draw_iff F hplain s (x.toNat + i / k.toNat) (y.toNat + j / k.toNat)
  rw [mem_ink_add] at hs hp
  exact iff_congr hs hp

/-- **The scaled advance is `k` times as large**, in the 16 bits it is returned in. -/
theorem advance_blown {k : UInt8} (hk : 1 ≤ k) (s : SharpLcd) (x y : UInt16) (text : List UInt8) :
    (s.drawTextScaled F x y text true k).1 - x
      = k.toUInt16 * ((s.drawText F x y text true).1 - x) := by
  have hplain := draw_fst F .plain s x y text true
  rw [draw] at hplain
  rw [scaled_fst F hk, hplain, UInt16.add_comm x, UInt16.add_comm x, UInt16.add_sub_cancel,
    UInt16.add_sub_cancel, ← UInt16.toNat_inj]
  simp only [UInt16.toNat_ofNat', UInt16.toNat_mul, UInt8.toNat_toUInt16, TextCall.advance]
  rw [Nat.mul_mod_mod, Nat.mul_comm k.toNat, Nat.mul_assoc]

/-- As a number too, when the scaled text ends within 16 bits. -/
theorem advance_blown_toNat {k : UInt8} (hk : 1 ≤ k) (s : SharpLcd) {x : UInt16} (y : UInt16)
    {text : List UInt8} (hfits : x.toNat + (codepoints text).length * (fontW * k.toNat) < 65536) :
    (s.drawTextScaled F x y text true k).1.toNat - x.toNat
      = k.toNat * ((s.drawText F x y text true).1.toNat - x.toNat) := by
  have hplain := draw_fst F .plain s x y text true
  rw [draw] at hplain
  have hpos : 1 ≤ k.toNat := UInt8.le_iff_toNat_le.mp hk
  -- the plain text ends no later
  have hle : (codepoints text).length * fontW ≤ (codepoints text).length * (fontW * k.toNat) :=
    Nat.mul_le_mul_left _ (Nat.le_mul_of_pos_right _ hpos)
  rw [scaled_fst F hk, hplain, UInt16.toNat_add, UInt16.toNat_add, UInt16.toNat_ofNat',
    UInt16.toNat_ofNat', TextCall.advance,
    Nat.mod_eq_of_lt (show (codepoints text).length * (fontW * k.toNat) < 65536 by omega),
    Nat.mod_eq_of_lt (show (codepoints text).length * fontW < 65536 by omega),
    Nat.mod_eq_of_lt hfits,
    Nat.mod_eq_of_lt (show x.toNat + (codepoints text).length * fontW < 65536 by omega),
    Nat.add_sub_cancel_left, Nat.add_sub_cancel_left, Nat.mul_comm k.toNat, Nat.mul_assoc]

/-- **The inks agree when every codepoint is carried.** -/
theorem mem_ink_of_carried {k : UInt8} (hk : ¬ k ≤ 1) {text : List UInt8}
    (hall : ∀ cp ∈ codepoints text, (glyphFor F cp).isSome) (i j : Nat) :
    (i, j) ∈ (TextCall.scaled k).ink F 0 0 text ↔
      (i / k.toNat, j / k.toNat) ∈ TextCall.plain.ink F 0 0 text := by
  rw [mem_ink_scaled F hk]
  simp only [carriedInk, ink, TextCall.advance, dots, Set.mem_ofPred_eq]
  refine exists_congr fun n => exists_congr fun cp => and_congr_right fun hcp => ?_
  rw [bodyDots_of_carried F (hall cp (List.mem_of_getElem? hcp))]

/-- **They do not where one is missing**: the first dot of its box is black in the plain text, and
nothing is there in the scaled one. -/
theorem not_mem_ink_of_missing {k : UInt8} (hk : ¬ k ≤ 1) {text : List UInt8} {n : Nat}
    {cp : UInt32} (hcp : (codepoints text)[n]? = some cp) (hnone : glyphFor F cp = none) :
    ¬ ((k.toNat * (n * fontW + 1), k.toNat * 4) ∈ (TextCall.scaled k).ink F 0 0 text ↔
      (k.toNat * (n * fontW + 1) / k.toNat, k.toNat * 4 / k.toNat)
        ∈ TextCall.plain.ink F 0 0 text) := by
  have hpos : 0 < k.toNat := by
    have hlt := UInt8.lt_iff_toNat_lt.mp (UInt8.not_le.mp hk)
    omega
  intro hdot
  rw [mem_ink_scaled F hk, Nat.mul_div_cancel_left _ hpos, Nat.mul_div_cancel_left _ hpos] at hdot
  exact box_not_carried F hcp hnone (hdot.mpr (box_mem_ink F hcp hnone))

/-- **When scaled text is the plain text blown up**, of texts that stay on the panel: at scale one,
and where the body face carries every codepoint. -/
theorem blown_up_iff {x y : UInt16} {text : List UInt8} {k : UInt8} (hk : 1 ≤ k)
    (hplain : StaysOnPanel F .plain x.toNat y.toNat text)
    (hscaled : StaysOnPanel F (.scaled k) x.toNat y.toNat text) :
    BlownUp F x y text k ↔ k = 1 ∨ ∀ cp ∈ codepoints text, (glyphFor F cp).isSome := by
  have hpixels := pixels_iff F hplain hscaled
  constructor
  · intro hblown
    by_contra hno
    obtain ⟨hne, hmissing⟩ := not_or.mp hno
    push Not at hmissing
    obtain ⟨cp, hmem, hcp⟩ := hmissing
    obtain ⟨n, hn⟩ := List.getElem?_of_mem hmem
    refine not_mem_ink_of_missing F (fun hle => hne (UInt8.le_antisymm hle hk)) hn
      (Option.not_isSome_iff_eq_none.mp hcp) ?_
    exact (hpixels { fb := fun _ => 0 } _ _).mp (hblown.pixels _ _ _)
  · intro h
    refine ⟨fun s i j => (hpixels s i j).mpr ?_, fun s => advance_blown F hk s x y text,
      fun s hfits => advance_blown_toNat F hk s y hfits⟩
    by_cases hone : k ≤ 1
    · -- at scale one the two are the same call
      obtain rfl : k = 1 := UInt8.le_antisymm hone hk
      rw [show (1 : UInt8).toNat = 1 from rfl, Nat.div_one, Nat.div_one]
      exact Iff.rfl
    · exact mem_ink_of_carried F hone (h.resolve_left fun hk1 => hone (hk1 ▸ UInt8.le_refl 1)) i j

/-- A font whose letters are a bar. -/
def barFonts : Fonts := { Display.blankFonts with ascii := fun _ _ => 0x80 }

/-- A letter at scale two is the letter blown up. -/
theorem blown_up_letter : BlownUp barFonts 0 0 [0x41] 2 := by
  have hplain : EndsBefore .plain 0 0 [0x41] lcdWidth lcdHeight := by decide
  have hscaled : EndsBefore (.scaled 2) 0 0 [0x41] lcdWidth lcdHeight := by decide
  have hcarried : (codepoints [0x41]).all (fun cp => (glyphFor barFonts cp).isSome) = true := by
    decide
  exact (blown_up_iff barFonts (by decide) (fun _ => hplain.ink_lt barFonts)
    (fun _ => hscaled.ink_lt barFonts)).mpr (.inr (List.all_eq_true.mp hcarried))

/-- A codepoint that the face does not carry is a box, and at scale two nothing. -/
theorem box_vanishes : ¬ ∀ (F : Fonts) (x y : UInt16) (text : List UInt8) (k : UInt8), 1 ≤ k →
    StaysOnPanel F .plain x.toNat y.toNat text → StaysOnPanel F (.scaled k) x.toNat y.toNat text →
    BlownUp F x y text k := by
  intro hall
  have hends : EndsBefore .plain 0 0 boxText lcdWidth lcdHeight := by decide
  have hends' : EndsBefore (.scaled 2) 0 0 boxText lcdWidth lcdHeight := by decide
  have hplain : StaysOnPanel Display.blankFonts .plain 0 0 boxText := fun _ => hends.ink_lt _
  have hscaled : StaysOnPanel Display.blankFonts (.scaled 2) 0 0 boxText := fun _ =>
    hends'.ink_lt _
  have hblown := hall Display.blankFonts 0 0 boxText 2 (by decide) hplain hscaled
  have hscale : ¬ (2 : UInt8) ≤ 1 := by decide
  have hn : (codepoints boxText)[0]? = some 0x4E2D := by decide
  have hnone : glyphFor Display.blankFonts 0x4E2D = none := by decide
  exact not_mem_ink_of_missing Display.blankFonts hscale hn hnone
    ((pixels_iff (x := 0) (y := 0) Display.blankFonts hplain hscaled { fb := fun _ => 0 } _ _).mp
      (hblown.pixels _ _ _))

end TextCall

end Thicket.Lcd
