import Mathlib.Data.Set.Image
import Thicket.Base.While
import Thicket.Lcd.Display
import Thicket.Lcd.Rectangles

/-! # What text does to the picture

The four text calls are one loop: decode a codepoint, draw its glyph at the pen, advance the pen.
The ink of a string is the dots of its glyphs placed in unbounded coordinates. The driver adds the
coordinates in 16 bits, and `set_pixel` drops what is off the panel only after that; so the string
is clipped where no ink beyond 16 bits comes back on the panel, and wrapped around where some
does. -/

namespace Thicket.Lcd

open SharpLcd

/-! ## Unbounded coordinates -/

/-- A place in unbounded coordinates. -/
abbrev Spot : Type := ℕ × ℕ

/-- Where a place lands when its coordinates are cut to 16 bits. -/
def wrap (p : Spot) : Point := (UInt16.ofNat p.1, UInt16.ofNat p.2)

/-- The points that a set of places has within 16 bits. -/
def seen (A : Set Spot) : Set Point := {p | (p.1.toNat, p.2.toNat) ∈ A}

/-- A point is seen at its coordinates. -/
theorem mem_seen {A : Set Spot} {x y : UInt16} : (x, y) ∈ seen A ↔ (x.toNat, y.toNat) ∈ A :=
  Iff.rfl

/-- A set of places moved to a pen. -/
def placed (x y : ℕ) (D : Set Spot) : Set Spot := {p | ∃ d ∈ D, p = (x + d.1, y + d.2)}

/-- A point is where its coordinates land. -/
theorem wrap_toNat (p : Point) : wrap (p.1.toNat, p.2.toNat) = p := by
  rw [wrap, UInt16.ofNat_toNat, UInt16.ofNat_toNat]

/-- The coordinates of a place are cut one by one. -/
theorem wrap_add (x y i j : Nat) : wrap (x + i, y + j)
    = (UInt16.ofNat x + UInt16.ofNat i, UInt16.ofNat y + UInt16.ofNat j) :=
  Prod.ext (UInt16.ofNat_add x i) (UInt16.ofNat_add y j)

/-- What is seen of a set is part of where it lands. -/
theorem seen_subset (A : Set Spot) : seen A ⊆ wrap '' A := fun p hp => ⟨_, hp, wrap_toNat p⟩

/-- A white picture has no black. -/
theorem getPixel_of_white {s : SharpLcd} (h : s.fb = fun _ => 0xFF) (x y : UInt16) :
    s.getPixel x y = false := by
  by_cases hpanel : OnPanel x y
  · have hfull : (0xFF : UInt8) &&& pixelMask x.toNat = pixelMask x.toNat := by
      rw [show (0xFF : UInt8) = -1 from rfl, UInt8.neg_one_and]
    rw [getPixel_of_onPanel _ hpanel, h, hfull]
    exact beq_eq_false_iff_ne.mpr (pixelMask_ne_zero _)
  · exact getPixel_of_not_onPanel _ hpanel

/-! ## Loops over a list -/

/-- **The loop rule over a list**: a loop inks the union of what its steps ink. -/
theorem inks_foldl {α : Type} (as : List α) {body : SharpLcd → α → SharpLcd} {ink : α → Set Point}
    {black : Bool} (hbody : ∀ a ∈ as, ∀ s, Inks (ink a) black s (body s a)) (s : SharpLcd) :
    Inks (⋃ a ∈ as, ink a) black s (as.foldl body s) := by
  induction as generalizing s with
  | nil => simpa using Inks.refl black s
  | cons a as ih =>
    have hstep := (hbody a List.mem_cons_self s).trans
      (ih (fun b hb => hbody b (List.mem_cons_of_mem a hb)) (body s a))
    simpa using hstep

/-- A step behind a test inks when the test is met. -/
theorem inks_ite {p : Prop} [Decidable p] {A : Set Point} {black : Bool} {s t : SharpLcd}
    (h : p → Inks A black s t) : Inks {q | p ∧ q ∈ A} black s (if p then t else s) := by
  split
  next hp => exact (h hp).congr fun x y _ => ⟨fun hA => ⟨hp, hA⟩, And.right⟩
  next hp =>
    exact (Inks.refl black s).congr fun x y _ =>
      ⟨fun h => absurd h (Set.notMem_empty _), fun h => absurd h.1 hp⟩

/-! ## Glyphs -/

/-- The dots of a glyph: `h` rows of `w` columns, the leftmost column in bit `top`. -/
def bitDots (bits : Nat → Nat) (h w top : Nat) : Set Spot :=
  {d | d.2 < h ∧ d.1 < w ∧ (bits d.2).testBit (top - d.1) = true}

/-- **A glyph inks its dots at the pen.** -/
theorem inks_drawInk (bits : Nat → Nat) (h w top x y : Nat) (black : Bool) (s : SharpLcd) :
    Inks (wrap '' placed x y (bitDots bits h w top)) black s
      (drawInk bits h w top (UInt16.ofNat x) (UInt16.ofNat y) black s) := by
  have hrow : ∀ row s, Inks {q | ¬ bits row = 0 ∧ q ∈ ⋃ col ∈ List.range w,
      {q | (bits row).testBit (top - col) = true ∧ q ∈ ({wrap (x + col, y + row)} : Set Point)}}
      black s (if bits row = 0 then s
        else (List.range w).foldl (fun s col =>
          if (bits row).testBit (top - col) then
            s.setPixel (UInt16.ofNat x + UInt16.ofNat col) (UInt16.ofNat y + UInt16.ofNat row) black
          else s) s) := by
    -- a row is a loop over its columns, behind the test for a blank one
    intro row s
    rw [← ite_not]
    refine inks_ite fun _ => inks_foldl _ (fun col _ s => inks_ite fun _ => ?_) s
    rw [wrap_add]
    exact inks_setPixel s _ _ black
  refine (inks_foldl _ (fun row _ s => hrow row s) s).congr fun x' y' _ => ?_
  simp only [Set.mem_iUnion, Set.mem_ofPred_eq, Set.mem_singleton_iff, List.mem_range, exists_prop,
    Set.mem_image, placed, bitDots]
  constructor
  · rintro ⟨row, hrow, -, col, hcol, hbit, hp⟩
    exact ⟨_, ⟨(col, row), ⟨hrow, hcol, hbit⟩, rfl⟩, hp.symm⟩
  · rintro ⟨_, ⟨⟨col, row⟩, ⟨hrow, hcol, hbit⟩, rfl⟩, hp⟩
    refine ⟨row, hrow, fun hzero => ?_, col, hcol, hbit, hp.symm⟩
    -- a blank row has no dots
    rw [hzero, Nat.zero_testBit] at hbit
    cases hbit

/-- The dots of a glyph at a scale: every dot is a square. -/
def scaledDots (k : Nat) (D : Set Spot) : Set Spot := {d | (d.1 / k, d.2 / k) ∈ D}

/-- `draw_text_scaled`, one glyph. -/
def drawScaled (g : Nat → UInt8) (k : Nat) (x y : UInt16) (black : Bool) (s : SharpLcd) :
    SharpLcd :=
  (List.range fontH).foldl (fun s row =>
    if g row = 0 then s
    else (List.range fontInkW).foldl (fun s col =>
      if (g row).toNat.testBit (7 - col) then
        (List.range k).foldl (fun s sy => (List.range k).foldl (fun s sx =>
          s.setPixel (x + UInt16.ofNat (col * k + sx)) (y + UInt16.ofNat (row * k + sy)) black) s) s
      else s) s) s

/-- **A scaled glyph inks the squares of its dots.** -/
theorem inks_drawScaled (g : Nat → UInt8) {k : Nat} (hk : 0 < k) (x y : Nat) (black : Bool)
    (s : SharpLcd) :
    Inks (wrap '' placed x y (scaledDots k (bitDots (fun row => (g row).toNat) fontH fontInkW 7)))
      black s (drawScaled g k (UInt16.ofNat x) (UInt16.ofNat y) black s) := by
  have hsquare : ∀ row col s, Inks (⋃ sy ∈ List.range k, ⋃ sx ∈ List.range k,
      ({wrap (x + (col * k + sx), y + (row * k + sy))} : Set Point)) black s
      ((List.range k).foldl (fun s sy => (List.range k).foldl (fun s sx =>
        s.setPixel (UInt16.ofNat x + UInt16.ofNat (col * k + sx))
          (UInt16.ofNat y + UInt16.ofNat (row * k + sy)) black) s) s) := by
    intro row col s
    refine inks_foldl _ (fun sy _ s => inks_foldl _ (fun sx _ s => ?_) s) s
    rw [wrap_add]
    exact inks_setPixel s _ _ black
  have hrow := fun row s => inks_ite (p := ¬ g row = 0) (s := s) fun _ =>
    inks_foldl (List.range fontInkW) (fun col _ s =>
      inks_ite (p := (g row).toNat.testBit (7 - col) = true) (s := s) fun _ => hsquare row col s) s
  have hall := inks_foldl (List.range fontH) (fun row _ s => hrow row s) s
  simp only [ite_not] at hall
  refine hall.congr fun x' y' _ => ?_
  simp only [Set.mem_iUnion, Set.mem_ofPred_eq, Set.mem_singleton_iff, List.mem_range, exists_prop,
    Set.mem_image, placed, scaledDots, bitDots]
  constructor
  · rintro ⟨row, hrow, -, col, hcol, hbit, sy, hsy, sx, hsx, hp⟩
    -- the dot is in the square of the column and the row it is divided down to
    have hx : (col * k + sx) / k = col := by
      rw [Nat.mul_comm, Nat.mul_add_div hk, Nat.div_eq_of_lt hsx, Nat.add_zero]
    have hy : (row * k + sy) / k = row := by
      rw [Nat.mul_comm, Nat.mul_add_div hk, Nat.div_eq_of_lt hsy, Nat.add_zero]
    exact ⟨_, ⟨(col * k + sx, row * k + sy), by dsimp only; rw [hx, hy]; exact ⟨hrow, hcol, hbit⟩,
      rfl⟩, hp.symm⟩
  · rintro ⟨_, ⟨⟨i, j⟩, ⟨hrow, hcol, hbit⟩, rfl⟩, hp⟩
    refine ⟨j / k, hrow, fun hzero => ?_, i / k, hcol, hbit, j % k, Nat.mod_lt _ hk, i % k,
      Nat.mod_lt _ hk, ?_⟩
    · -- a blank row has no dots
      dsimp only at hbit
      rw [hzero] at hbit
      simp at hbit
    · rw [Nat.div_add_mod', Nat.div_add_mod']
      exact hp.symm

/-! ## The text calls -/

/-- A text call on the driver. -/
inductive TextCall where
  /-- `draw_text`. -/
  | plain
  /-- `draw_text_scaled`. -/
  | scaled (scale : UInt8)
  /-- `draw_text_big`. -/
  | big
  /-- `draw_text_bold`. -/
  | bold (face : BoldFace)

namespace TextCall

variable (F : Fonts)

/-- The call: the pen behind the string, and the driver. -/
def draw (s : SharpLcd) (x y : UInt16) (text : List UInt8) (black : Bool) :
    TextCall → UInt16 × SharpLcd
  | .plain => s.drawText F x y text black
  | .scaled scale => s.drawTextScaled F x y text black scale
  | .big => s.drawTextBig F x y text black
  | .bold face => s.drawTextBold F x y text face black

/-- The advance of a codepoint. -/
def advance : TextCall → Nat
  | .plain => fontW
  | .scaled scale => if scale ≤ 1 then fontW else fontW * scale.toNat
  | .big => bigFontW
  | .bold face => boldW face

/-- The dots of the body face; a codepoint it does not carry is a box. -/
def bodyDots (cp : UInt32) : Set Spot :=
  bitDots (fun row => ((glyphFor F cp).getD missingBox row).toNat) fontH fontInkW 7

/-- The dots of the body face; a codepoint it does not carry has none. -/
def carriedDots (cp : UInt32) : Set Spot :=
  {d | ∃ g ∈ glyphFor F cp, d ∈ bitDots (fun row => (g row).toNat) fontH fontInkW 7}

/-- **The dots of a codepoint.** -/
def dots (cp : UInt32) : TextCall → Set Spot
  | .plain => bodyDots F cp
  | .scaled scale => if scale ≤ 1 then bodyDots F cp else scaledDots scale.toNat (carriedDots F cp)
  | .big => {d | ∃ g ∈ F.big cp, d ∈ bitDots (fun row => (g row).toNat) bigFontH bigFontInkW 15}
  | .bold face =>
      {d | ∃ g ∈ F.bold face cp, d ∈ bitDots (fun row => (g row).toNat) (boldH face) 8 7}

/-- One glyph, in the body of the loop. -/
def drawGlyph (y : UInt16) (black : Bool) (cp : UInt32) (x : UInt16) (s : SharpLcd) :
    TextCall → SharpLcd
  | .plain =>
      drawInk (fun row => ((glyphFor F cp).getD missingBox row).toNat) fontH fontInkW 7 x y black s
  | .scaled scale =>
      if scale ≤ 1 then
        drawInk (fun row => ((glyphFor F cp).getD missingBox row).toNat) fontH fontInkW 7 x y black
          s
      else
        match glyphFor F cp with
        | none => s
        | some g => drawScaled g scale.toNat x y black s
  | .big =>
      match F.big cp with
      | none => s
      | some g => drawInk (fun row => (g row).toNat) bigFontH bigFontInkW 15 x y black s
  | .bold face =>
      match F.bold face cp with
      | none => s
      | some g => drawInk (fun row => (g row).toNat) (boldH face) 8 7 x y black s

/-- **The four calls are one loop.** -/
theorem draw_eq (call : TextCall) (s : SharpLcd) (x y : UInt16) (text : List UInt8)
    (black : Bool) : call.draw F s x y text black
      = drawRun (fun cp x s => call.drawGlyph F y black cp x s) call.advance x text s := by
  cases call with
  | plain => rfl
  | big => rfl
  | bold face => rfl
  | scaled scale =>
    rw [draw, drawTextScaled, advance]
    by_cases hone : scale ≤ 1
    · rw [if_pos hone, if_pos hone, drawText]
      simp only [drawGlyph, if_pos hone]
    · rw [if_neg hone, if_neg hone]
      simp only [drawGlyph, if_neg hone]
      rfl

/-- **One glyph inks its dots at the pen.** -/
theorem inks_drawGlyph (call : TextCall) (cp : UInt32) (x y : Nat) (black : Bool) (s : SharpLcd) :
    Inks (wrap '' placed x y (call.dots F cp)) black s
      (call.drawGlyph F (UInt16.ofNat y) black cp (UInt16.ofNat x) s) := by
  -- a codepoint without a glyph draws nothing
  have hnone : ∀ {D : Set Spot}, D = ∅ → Inks (wrap '' placed x y D) black s s := by
    rintro _ rfl
    refine (Inks.refl black s).congr fun x' y' _ => ?_
    simp [placed]
  cases call with
  | plain =>
    rw [dots, drawGlyph, bodyDots]
    exact inks_drawInk _ _ _ _ x y black s
  | scaled scale =>
    rw [dots, drawGlyph, bodyDots]
    split
    next => exact inks_drawInk _ _ _ _ x y black s
    next hone =>
      have hk : 0 < scale.toNat := by
        have hlt := UInt8.lt_iff_toNat_lt.mp (UInt8.not_le.mp hone)
        omega
      split
      next hg => exact hnone (by simp [scaledDots, carriedDots, hg])
      next g hg =>
        have hdots : carriedDots F cp = bitDots (fun row => (g row).toNat) fontH fontInkW 7 := by
          simp [carriedDots, hg]
        rw [hdots]
        exact inks_drawScaled g hk x y black s
  | big =>
    rw [dots, drawGlyph]
    split
    next hg => exact hnone (by simp [hg])
    next g hg =>
      simp only [hg, Option.mem_def, Option.some.injEq, exists_eq_left', Set.ofPred_mem_eq]
      exact inks_drawInk _ _ _ _ x y black s
  | bold face =>
    rw [dots, drawGlyph]
    split
    next hg => exact hnone (by simp [hg])
    next g hg =>
      simp only [hg, Option.mem_def, Option.some.injEq, exists_eq_left', Set.ofPred_mem_eq]
      exact inks_drawInk _ _ _ _ x y black s

/-! ## Strings -/

/-- **The ink of a string** in unbounded coordinates: the dots of the codepoint at index `i`, placed
`i` advances behind the first. -/
def ink (x y : Nat) (text : List UInt8) (call : TextCall) : Set Spot :=
  {p | ∃ i cp, (codepoints text)[i]? = some cp ∧
    p ∈ placed (x + i * call.advance) y (call.dots F cp)}

/-- The ink of codepoints, one after the other. -/
def runInk (call : TextCall) (y : Nat) : Nat → List UInt32 → Set Spot
  | _, [] => ∅
  | x, cp :: cps => placed x y (call.dots F cp) ∪ runInk call y (x + call.advance) cps

/-- A place in the ink of codepoints is a dot of one of them. -/
theorem mem_runInk {call : TextCall} {x y : Nat} {cps : List UInt32} {p : Spot} :
    p ∈ runInk F call y x cps ↔ ∃ i cp, cps[i]? = some cp ∧
      p ∈ placed (x + i * call.advance) y (call.dots F cp) := by
  induction cps generalizing x with
  | nil => simp [runInk]
  | cons cp cps ih =>
    rw [runInk, Set.mem_union, ih]
    constructor
    · -- the first codepoint, or one of the others with its index one less
      rintro (hp | ⟨i, cp', hcp', hp⟩)
      · exact ⟨0, cp, rfl, by rwa [Nat.zero_mul, Nat.add_zero]⟩
      · refine ⟨i + 1, cp', hcp', ?_⟩
        rwa [Nat.succ_mul, Nat.add_comm (i * _), ← Nat.add_assoc]
    · rintro ⟨i, cp', hcp', hp⟩
      cases i with
      | zero =>
        obtain rfl : cp = cp' := by simpa using hcp'
        exact .inl (by rwa [Nat.zero_mul, Nat.add_zero] at hp)
      | succ i =>
        refine .inr ⟨i, cp', hcp', ?_⟩
        rwa [Nat.succ_mul, Nat.add_comm (i * _), ← Nat.add_assoc] at hp

/-- The ink of a string is that of its codepoints. -/
theorem ink_eq_runInk (call : TextCall) (x y : Nat) (text : List UInt8) :
    call.ink F x y text = runInk F call y x (codepoints text) :=
  Set.ext fun _ => (mem_runInk F).symm

/-- Codepoints ink where their dots land. -/
theorem inks_runInk (call : TextCall) (x y : Nat) (black : Bool) (cps : List UInt32)
    (s : SharpLcd) : Inks (wrap '' runInk F call y x cps) black s
      (cps.foldl (fun (x, s) cp => (x + UInt16.ofNat call.advance,
        call.drawGlyph F (UInt16.ofNat y) black cp x s)) (UInt16.ofNat x, s)).2 := by
  induction cps generalizing x s with
  | nil => simpa [runInk] using Inks.refl black s
  | cons cp cps ih =>
    have hrest := ih (x + call.advance) (call.drawGlyph F (UInt16.ofNat y) black cp
      (UInt16.ofNat x) s)
    -- the pen of the loop is the unbounded one, cut to 16 bits at every step
    rw [UInt16.ofNat_add] at hrest
    rw [runInk, Set.image_union]
    exact (inks_drawGlyph F call cp x y black s).trans hrest

/-- **A text call inks where its dots land in 16 bits.** -/
theorem inks_draw (call : TextCall) (x y : UInt16) (text : List UInt8) (black : Bool)
    (s : SharpLcd) :
    Inks (wrap '' call.ink F x.toNat y.toNat text) black s (call.draw F s x y text black).2 := by
  have h := inks_runInk F call x.toNat y.toNat black (codepoints text) s
  rw [UInt16.ofNat_toNat, UInt16.ofNat_toNat] at h
  rw [draw_eq, ink_eq_runInk]
  exact h

/-- **The loop over a string ends** at its terminator, whatever its bytes. -/
theorem exits_drawRun (glyph : UInt32 → UInt16 → SharpLcd → SharpLcd) (adv : Nat) (x : UInt16)
    (text : List UInt8) (s : SharpLcd) :
    ∃ e, Exits (fun q : List UInt8 × UInt16 × SharpLcd => peek q.1 ≠ 0)
      (fun q => ((nextCp q.1).2, q.2.1 + UInt16.ofNat adv, glyph (nextCp q.1).1 q.2.1 q.2.2))
      (text, x, s) (e, drawRun glyph adv x text s) := by
  induction hn : text.length using Nat.strong_induction_on generalizing text x s with
  | _ n ih =>
    rw [drawRun, codepoints_eq]
    -- `next_cp` takes a byte at least, so the string gets shorter
    by_cases hz : peek text = 0
    · rw [if_pos hz]
      exact ⟨text, .stop fun h => h hz⟩
    · rw [if_neg hz]
      obtain ⟨e, he⟩ := ih _ (hn ▸ length_nextCp_lt (ne_nil_of_peek hz)) (x + UInt16.ofNat adv)
        (nextCp text).2 (glyph (nextCp text).1 x s) rfl
      exact ⟨e, .turn hz he⟩

/-- **Text is clipped, never wrapped around**: the call returns, and the pixels it sets are those of
its ink that are on the panel. -/
structure Clipped (call : TextCall) (x y : UInt16) (text : List UInt8) : Prop where
  /-- `while (*s)` ends. -/
  ends : ∀ black s, ∃ e, Exits (fun q : List UInt8 × UInt16 × SharpLcd => peek q.1 ≠ 0)
    (fun q => ((nextCp q.1).2, q.2.1 + UInt16.ofNat call.advance,
      call.drawGlyph F y black (nextCp q.1).1 q.2.1 q.2.2)) (text, x, s)
    (e, call.draw F s x y text black)
  /-- The pixels that are set. -/
  inks : ∀ black s, Inks (seen (call.ink F x.toNat y.toNat text)) black s
    (call.draw F s x y text black).2

/-- **No ink comes back**: what lies on the panel modulo 2^16 is inked there anyway. -/
def NoReturn (call : TextCall) (x y : Nat) (text : List UInt8) : Prop :=
  ∀ p ∈ call.ink F x y text, p.1 % 65536 < lcdWidth → p.2 % 65536 < lcdHeight →
    (p.1 % 65536, p.2 % 65536) ∈ call.ink F x y text

/-- A place that is cut to 16 bits. -/
theorem toNat_wrap (p : Spot) : ((wrap p).1.toNat, (wrap p).2.toNat) = (p.1 % 65536, p.2 % 65536) :=
  Prod.ext (UInt16.toNat_ofNat' ..) (UInt16.toNat_ofNat' ..)

variable {F} in
/-- **Text is clipped if no ink comes back.** -/
theorem clipped_of_noReturn {call : TextCall} {x y : UInt16} {text : List UInt8}
    (hreturn : NoReturn F call x.toNat y.toNat text) : Clipped F call x y text := by
  refine ⟨fun black s => ?_, fun black s => ?_⟩
  · rw [draw_eq]
    exact exits_drawRun (fun cp x s => call.drawGlyph F y black cp x s) call.advance x text s
  · refine (inks_draw F call x y text black s).congr fun x' y' hpanel => ?_
    constructor
    · rintro ⟨p, hp, hwrap⟩
      -- a dot that lands on the panel is there anyway
      have hcut := toNat_wrap p
      rw [hwrap] at hcut
      obtain ⟨h1, h2⟩ := Prod.mk.inj hcut
      have hback := hreturn p hp (h1 ▸ hpanel.1) (h2 ▸ hpanel.2)
      rwa [← hcut] at hback
    · intro hseen
      exact seen_subset _ hseen

/-- **When text is clipped**: exactly when no ink comes back on the panel. -/
theorem clipped_iff (call : TextCall) (x y : UInt16) (text : List UInt8) :
    Clipped F call x y text ↔ NoReturn F call x.toNat y.toNat text := by
  refine ⟨fun hclipped p hp hx hy => ?_, clipped_of_noReturn⟩
  have hpanel : OnPanel (wrap p).1 (wrap p).2 := by
    obtain ⟨h1, h2⟩ := Prod.mk.inj (toNat_wrap p)
    exact ⟨h1 ▸ hx, h2 ▸ hy⟩
  -- black text on a white picture shows where the ink is
  let white : SharpLcd := { fb := fun _ => 0xFF }
  have hink := (inks_draw F call x y text true white).inside _ _ hpanel ⟨p, hp, rfl⟩
  by_contra hno
  have hstays := (hclipped.inks true white).outside (wrap p).1 (wrap p).2 fun h => hno (by
    have hseen : ((wrap p).1.toNat, (wrap p).2.toNat) ∈ call.ink F x.toNat y.toNat text := h.2
    rwa [toNat_wrap] at hseen)
  rw [hink, getPixel_of_white rfl] at hstays
  exact Bool.noConfusion hstays

/-! ## Text that fits 16 bits -/

/-- The columns of a glyph. -/
def width : TextCall → Nat
  | .plain => fontInkW
  | .scaled scale => if scale ≤ 1 then fontInkW else fontInkW * scale.toNat
  | .big => bigFontInkW
  | .bold _ => 8

/-- The rows of a glyph. -/
def height : TextCall → Nat
  | .plain => fontH
  | .scaled scale => if scale ≤ 1 then fontH else fontH * scale.toNat
  | .big => bigFontH
  | .bold face => boldH face

/-- The dots of a glyph are in its box. -/
theorem lt_of_mem_dots {call : TextCall} {cp : UInt32} {d : Spot} (h : d ∈ call.dots F cp) :
    d.1 < call.width ∧ d.2 < call.height := by
  cases call with
  | plain => exact ⟨h.2.1, h.1⟩
  | scaled scale =>
    rw [dots] at h
    rw [width, height]
    split at h
    next hone =>
      rw [if_pos hone, if_pos hone]
      exact ⟨h.2.1, h.1⟩
    next hone =>
      have hk : 0 < scale.toNat := by
        have hlt := UInt8.lt_iff_toNat_lt.mp (UInt8.not_le.mp hone)
        omega
      -- a dot is a square, so the box grows with the scale
      obtain ⟨g, -, hd⟩ := h
      rw [if_neg hone, if_neg hone]
      exact ⟨(Nat.div_lt_iff_lt_mul hk).mp hd.2.1, (Nat.div_lt_iff_lt_mul hk).mp hd.1⟩
  | big =>
    obtain ⟨g, -, hd⟩ := h
    exact ⟨hd.2.1, hd.1⟩
  | bold face =>
    obtain ⟨g, -, hd⟩ := h
    exact ⟨hd.2.1, hd.1⟩

/-- The glyphs of a string end before column `w` and row `h`. -/
structure EndsBefore (call : TextCall) (x y : Nat) (text : List UInt8) (w h : Nat) : Prop where
  /-- On the right. -/
  right : ∀ i < (codepoints text).length, x + i * call.advance + call.width ≤ w
  /-- At the bottom. -/
  bottom : y + call.height ≤ h

instance (call : TextCall) (x y : Nat) (text : List UInt8) (w h : Nat) :
    Decidable (EndsBefore call x y text w h) :=
  decidable_of_iff ((∀ i < (codepoints text).length, x + i * call.advance + call.width ≤ w) ∧
    y + call.height ≤ h) ⟨fun h => ⟨h.1, h.2⟩, fun h => ⟨h.1, h.2⟩⟩

/-- So does their ink. -/
theorem EndsBefore.ink_lt {call : TextCall} {x y w h : Nat} {text : List UInt8}
    (hends : EndsBefore call x y text w h) {p : Spot} (hp : p ∈ call.ink F x y text) :
    p.1 < w ∧ p.2 < h := by
  obtain ⟨i, cp, hcp, d, hd, rfl⟩ := hp
  have hi := hends.right i (List.getElem?_eq_some_iff.mp hcp).1
  have hbottom := hends.bottom
  have hbox := lt_of_mem_dots F hd
  dsimp only
  omega

/-- Ink within 16 bits does not come back. -/
theorem noReturn_of_ink_lt {call : TextCall} {x y : Nat} {text : List UInt8}
    (h : ∀ p ∈ call.ink F x y text, p.1 < 65536 ∧ p.2 < 65536) : NoReturn F call x y text := by
  intro p hp _ _
  obtain ⟨hx, hy⟩ := h p hp
  rw [Nat.mod_eq_of_lt hx, Nat.mod_eq_of_lt hy]
  exact hp

/-- **Text whose glyphs end within 16 bits is clipped.** -/
theorem clipped_of_fits {call : TextCall} {x y : UInt16} {text : List UInt8}
    (hends : EndsBefore call x.toNat y.toNat text 65536 65536) : Clipped F call x y text :=
  clipped_of_noReturn (noReturn_of_ink_lt F fun _ hp => hends.ink_lt F hp)

/-- A character that the body face does not carry. -/
def boxText : List UInt8 := [0xE4, 0xB8, 0xAD]

/-- A box begun in the last 16-bit column comes back at the left. -/
theorem text_at_65535_reappears : ¬ ∀ (F : Fonts) (call : TextCall) (x y : UInt16)
    (text : List UInt8), Clipped F call x y text := by
  intro hall
  have hno := (clipped_iff _ _ _ _ _).mp (hall Display.blankFonts .plain 65535 0 boxText)
  have hdot : ((1, 4) : Spot) ∈ TextCall.plain.dots Display.blankFonts 0x4E2D :=
    ⟨by decide, by decide, by decide⟩
  have hback := hno (65536, 4) ⟨0, 0x4E2D, by decide, (1, 4), hdot, rfl⟩ (by decide) (by decide)
  obtain ⟨i, cp, -, d, -, hp⟩ := hback
  -- no dot of the box is in column 0 of the panel
  have hcol := congrArg Prod.fst hp
  simp only [UInt16.reduceToNat] at hcol
  omega

end TextCall

end Thicket.Lcd
