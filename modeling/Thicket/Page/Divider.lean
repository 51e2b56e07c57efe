import Thicket.Page.Utf8Walk

/-! # The fill of a divider

`onDivider` encodes its character by itself, in one, two or three bytes, and `draw_text` decodes
them with `next_cp`. The two are inverse on the basic plane. Above it the encoder has no length
class of its own: three bytes never spell a codepoint from `0x10000` on. -/

namespace Thicket.Page

open Thicket.Lcd Thicket.Page.PageRenderer

/-! ## The bytes -/

/-- A continuation byte of the encoder. -/
def dividerTail (v : UInt32) : UInt8 := ((0x80 : UInt32) ||| (v &&& 0x3F)).toUInt8

/-- The payload of a continuation byte. -/
theorem toNat_dividerTail (v : UInt32) : (dividerTail v).toNat = 128 + v.toNat % 64 := by
  have hlow : v.toNat &&& 63 = v.toNat % 64 := Nat.and_two_pow_sub_one_eq_mod v.toNat 6
  have hor : 128 ||| v.toNat % 64 = 128 + v.toNat % 64 :=
    (Nat.shiftLeft_add_eq_or_of_lt (i := 6) (Nat.mod_lt _ (by decide)) 2).symm
  rw [dividerTail, UInt32.toNat_toUInt8, UInt32.toNat_or, UInt32.toNat_and]
  simp only [UInt32.reduceToNat, hlow, hor]
  omega

/-- It is one. -/
theorem isTail_dividerTail (v : UInt32) : IsTail (dividerTail v) := by
  rw [isTail_iff, toNat_dividerTail]
  omega

/-- The first byte of two. -/
theorem toNat_lead_two {ch : UInt32} (h : ch.toNat < 2048) :
    ((0xC0 : UInt32) ||| ch >>> 6).toUInt8.toNat = 192 + ch.toNat / 64 := by
  have hshift : (ch >>> 6).toNat = ch.toNat / 64 := by
    rw [UInt32.toNat_shiftRight]
    exact Nat.shiftRight_eq_div_pow _ _
  have hor : 192 ||| ch.toNat / 64 = 192 + ch.toNat / 64 :=
    (Nat.shiftLeft_add_eq_or_of_lt (i := 5) (by omega) 6).symm
  rw [UInt32.toNat_toUInt8, UInt32.toNat_or, hshift]
  simp only [UInt32.reduceToNat, hor]
  omega

/-- The first byte of three. -/
theorem toNat_lead_three {ch : UInt32} (h : ch.toNat < 65536) :
    ((0xE0 : UInt32) ||| ch >>> 12).toUInt8.toNat = 224 + ch.toNat / 4096 := by
  have hshift : (ch >>> 12).toNat = ch.toNat / 4096 := by
    rw [UInt32.toNat_shiftRight]
    exact Nat.shiftRight_eq_div_pow _ _
  have hor : 224 ||| ch.toNat / 4096 = 224 + ch.toNat / 4096 :=
    (Nat.shiftLeft_add_eq_or_of_lt (i := 4) (by omega) 14).symm
  rw [UInt32.toNat_toUInt8, UInt32.toNat_or, hshift]
  simp only [UInt32.reduceToNat, hor]
  omega

/-- How many bytes a first byte of two announces. -/
theorem seqLen_of_lead_two {c : UInt8} (h : 192 ≤ c.toNat ∧ c.toNat < 224) : seqLen c = 2 := by
  have hbig : ¬ c < 0x80 := fun hc => by
    have hlt : c.toNat < 128 := UInt8.lt_iff_toNat_lt.mp hc
    omega
  rw [seqLen, if_neg hbig, if_pos ((isLead2_iff c).mpr h)]

/-- A first byte of three. -/
theorem seqLen_of_lead_three {c : UInt8} (h : 224 ≤ c.toNat ∧ c.toNat < 240) : seqLen c = 3 := by
  have hbig : ¬ c < 0x80 := fun hc => by
    have hlt : c.toNat < 128 := UInt8.lt_iff_toNat_lt.mp hc
    omega
  have htwo : ¬ c &&& 0xE0 = 0xC0 := fun hc => by
    have hlt := (isLead2_iff c).mp hc
    omega
  rw [seqLen, if_neg hbig, if_neg htwo, if_pos ((isLead3_iff c).mpr h)]

/-! ## Read back -/

/-- ASCII is its own byte. -/
theorem nextCp_divider_one {ch : UInt32} (h : ch.toNat < 128) :
    nextCp [ch.toUInt8] = (ch, []) := by
  have hbyte : ch.toUInt8.toNat = ch.toNat := by
    rw [UInt32.toNat_toUInt8]
    omega
  have hsmall : ch.toUInt8 < 0x80 := UInt8.lt_iff_toNat_lt.mpr (by rw [hbyte]; exact h)
  have hback : ch.toUInt8.toUInt32 = ch := by
    rw [← UInt32.toNat_inj, UInt8.toNat_toUInt32, hbyte]
  rw [nextCp_one (by rw [seqLen, if_pos hsmall]), if_pos hsmall, hback]

/-- Two bytes. -/
theorem nextCp_divider_two {ch : UInt32} (hlo : ¬ ch.toNat < 128) (hhi : ch.toNat < 2048) :
    nextCp [((0xC0 : UInt32) ||| ch >>> 6).toUInt8, dividerTail ch] = (ch, []) := by
  -- the encoder splits off six bits, and the decoder puts them back
  have hlead := toNat_lead_two hhi
  rw [nextCp_two (seqLen_of_lead_two (by omega)), if_pos (isTail_dividerTail ch), Prod.mk.injEq,
    ← UInt32.toNat_inj, toNat_head_two, hlead, toNat_dividerTail]
  exact ⟨by omega, rfl⟩

/-- Three bytes. -/
theorem nextCp_divider_three {ch : UInt32} (hlo : ¬ ch.toNat < 2048) (hhi : ch.toNat < 65536) :
    nextCp [((0xE0 : UInt32) ||| ch >>> 12).toUInt8, dividerTail (ch >>> 6), dividerTail ch]
      = (ch, []) := by
  have hlead := toNat_lead_three hhi
  have hshift : (ch >>> 6).toNat = ch.toNat / 64 := by
    rw [UInt32.toNat_shiftRight]
    exact Nat.shiftRight_eq_div_pow _ _
  rw [nextCp_three (seqLen_of_lead_three (by omega)), if_pos (isTail_dividerTail (ch >>> 6)),
    if_pos (isTail_dividerTail ch), Prod.mk.injEq, ← UInt32.toNat_inj, toNat_head_three, hlead,
    toNat_dividerTail, toNat_dividerTail, hshift]
  exact ⟨by omega, rfl⟩

/-- **The encoder is inverse to `next_cp`** on the basic plane: one step reads all of the bytes. -/
theorem nextCp_dividerGlyph {ch : UInt32} (h : ch.toNat < 65536) :
    nextCp (dividerGlyph ch) = (ch, []) := by
  unfold dividerGlyph
  dsimp only
  split
  next hone => exact nextCp_divider_one (UInt32.lt_iff_toNat_lt.mp hone)
  next hone =>
    have hlo : ¬ ch.toNat < 128 := fun hc => hone (UInt32.lt_iff_toNat_lt.mpr hc)
    split
    next htwo => exact nextCp_divider_two hlo (UInt32.lt_iff_toNat_lt.mp htwo)
    next htwo =>
      exact nextCp_divider_three (fun hc => htwo (UInt32.lt_iff_toNat_lt.mpr hc)) h

/-- **Three bytes never spell a codepoint above the basic plane.** -/
theorem nextCp_three_lt (c b d : UInt8) : (nextCp [c, b, d]).1.toNat < 65536 := by
  -- malformed bytes read as the replacement character, which is on the plane
  have hrep : (0xFFFD : UInt32).toNat < 65536 := by decide
  have hc := c.toNat_lt
  rcases seqLen_cases c with h | h | h | h
  · -- one byte is read, of three
    rcases of_seqLen_one h with h1 | ⟨h1, h2, h3, h4⟩
    · simp only [nextCp, peek, List.headD_cons, h1, if_true, UInt8.toNat_toUInt32]
      omega
    · simp [nextCp, peek, h1, h2, h3, h4]
  · obtain ⟨h1, h2⟩ := of_seqLen_two h
    by_cases hb : b &&& 0xC0 = 0x80
    · simp only [nextCp, nextCpExtra, peek, List.headD_cons, List.tail_cons, h1, h2, hb, if_true,
        if_false, ne_eq, not_true_eq_false, toNat_head_two]
      omega
    · simp [nextCp, nextCpExtra, peek, h1, h2, hb]
  · rw [nextCp_three h]
    split
    · split
      · rw [toNat_head_three]
        omega
      · exact hrep
    · exact hrep
  · -- the fourth byte is the terminator
    obtain ⟨h1, h2, h3, h4⟩ := of_seqLen_four h
    by_cases hb : b &&& 0xC0 = 0x80 <;> by_cases hd : d &&& 0xC0 = 0x80 <;>
      simp [nextCp, nextCpExtra, peek, h1, h2, h3, h4, hb, hd]

/-! ## The divider -/

variable {o : Options} {ch : UInt32}

/-- **The fill of a divider is its character**: the bytes read back as it and nothing else, so each
cell draws its glyph and the check for a missing glyph is about what is drawn. -/
structure DividerFaithful (o : Options) (ch : UInt32) : Prop where
  /-- Read back, the bytes are the one codepoint. -/
  one : codepoints (dividerGlyph ch) = [ch]
  /-- A fill cell draws the glyph of the character, or the box. -/
  drawn : ∀ (s : SharpLcd) (x y : UInt16),
    s.drawText o.fonts x y (dividerGlyph ch) true = (x + UInt16.ofNat fontW,
      SharpLcd.drawInk (fun row => ((glyphFor o.fonts ch).getD missingBox row).toNat) fontH fontInkW
        7 x y true s)
  /-- The fill counts as missing exactly when what a cell draws is the box. -/
  checked : ∀ r : PageRenderer, r.rowVisible = true → (r.drawDivider o ch).missing
    = if (codepoints (dividerGlyph ch)).all fun cp => (glyphFor o.fonts cp).isSome then r.missing
      else r.missing.note ch

/-- What one codepoint draws. -/
theorem drawText_of_codepoints {g : List UInt8} (h : codepoints g = [ch]) (s : SharpLcd)
    (x y : UInt16) (black : Bool) :
    s.drawText o.fonts x y g black = (x + UInt16.ofNat fontW,
      SharpLcd.drawInk (fun row => ((glyphFor o.fonts ch).getD missingBox row).toNat) fontH fontInkW
        7 x y black s) := by
  rw [SharpLcd.drawText, SharpLcd.drawRun, h]
  rfl

/-- The encoder's bytes are not empty for a character other than NUL. -/
theorem peek_dividerGlyph (h : ch.toNat < 65536) (h0 : ch ≠ 0) : peek (dividerGlyph ch) ≠ 0 := by
  intro hz
  have hread := nextCp_dividerGlyph h
  have hnul : (nextCp (dividerGlyph ch)).1 = 0 := by
    simp [nextCp, hz]
  rw [hread] at hnul
  exact h0 hnul

/-- **The divider's encoder is inverse to the decoder exactly on the basic plane.** -/
theorem divider_faithful_iff (o : Options) (h0 : ch ≠ 0) :
    DividerFaithful o ch ↔ ch < 0x10000 := by
  have hplane : ch < 0x10000 ↔ ch.toNat < 65536 := UInt32.lt_iff_toNat_lt
  rw [hplane]
  constructor
  · intro hfaithful
    by_contra hbig
    -- the encoder has taken three bytes
    have hone : ¬ ch < 0x80 := fun hc => hbig (by
      have hlt : ch.toNat < 128 := UInt32.lt_iff_toNat_lt.mp hc
      omega)
    have htwo : ¬ ch < 0x800 := fun hc => hbig (by
      have hlt : ch.toNat < 2048 := UInt32.lt_iff_toNat_lt.mp hc
      omega)
    have hread := hfaithful.one
    rw [codepoints_eq] at hread
    split at hread
    · cases hread
    · have hcp := (List.cons.inj hread).1
      rw [dividerGlyph, if_neg hone, if_neg htwo] at hcp
      refine hbig ?_
      rw [← hcp]
      exact nextCp_three_lt _ _ _
  · intro hsmall
    have hread : codepoints (dividerGlyph ch) = [ch] := by
      rw [codepoints_eq, if_neg (peek_dividerGlyph hsmall h0), nextCp_dividerGlyph hsmall]
      rfl
    refine ⟨hread, fun s x y => drawText_of_codepoints hread s x y true, fun r hr => ?_⟩
    rw [PageRenderer.drawDivider, if_pos hr]
    rw [hread, List.all_cons, List.all_nil, Bool.and_true]
    rfl

/-- The character of a rule is drawn as itself. -/
theorem divider_faithful_rule : DividerFaithful { fonts := Display.blankFonts } 0x2500 :=
  (divider_faithful_iff _ (by decide)).mpr (by decide)

/-- A globe, which the emoji table carries, is not. -/
theorem globe_misdrawn : ¬ ∀ (o : Options) (ch : UInt32), ch ≠ 0 → ch ≤ 0x10FFFF →
    ¬ (0xD800 ≤ ch ∧ ch ≤ 0xDFFF) → DividerFaithful o ch := by
  intro hall
  have h := (hall { fonts := Display.blankFonts } 0x1F310 (by decide) (by decide) (by decide)).one
  exact absurd h (by decide)

end Thicket.Page
