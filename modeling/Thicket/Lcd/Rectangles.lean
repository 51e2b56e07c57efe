import Mathlib.Data.Set.Lattice
import Mathlib.Data.Nat.Bitwise
import Thicket.Base.Loop
import Thicket.Lcd.SharpLcd
import Thicket.Lcd.Mirror

/-! # What the rectangle primitives do to the picture

A drawing operation is read as the set of points it inks: those of them on the panel take its
colour, every other pixel stays. Inking composes by union, so a loop inks the union of its steps,
and the order of two operations of one colour does not matter. `fill_rect` and `draw_hline` ink
their rectangle when they return, which is when its far edges are 16-bit values; `fill_dither`
stops at the edge of the panel and always returns. -/

namespace Thicket.Lcd

/-- A place that may be on the panel. -/
abbrev Point : Type := UInt16 × UInt16

/-- The place is a pixel of the panel. -/
abbrev OnPanel (x y : UInt16) : Prop := x.toNat < lcdWidth ∧ y.toNat < lcdHeight

/-- The byte of a pixel of the panel. -/
def panelByte {x y : UInt16} (h : OnPanel x y) : Fin lcdFbBytes :=
  byteIndex ⟨y.toNat, h.2⟩ ⟨x.toNat / 8, Nat.div_lt_of_lt_mul h.1⟩

/-- **Inking**: the points of the set on the panel take the colour, all other pixels stay. -/
structure Inks (ink : Set Point) (black : Bool) (s t : SharpLcd) : Prop where
  /-- Inside the ink. -/
  inside : ∀ x y, OnPanel x y → (x, y) ∈ ink → t.getPixel x y = black
  /-- Outside the ink, and off the panel. -/
  outside : ∀ x y, ¬ (OnPanel x y ∧ (x, y) ∈ ink) → t.getPixel x y = s.getPixel x y

/-! ## One pixel -/

/-- The masks of different columns of a byte do not meet. -/
theorem pixelMask_and_of_ne {j k : Nat} (h : j % 8 ≠ k % 8) :
    pixelMask j &&& pixelMask k = 0 := by
  have hall : ∀ m < 8, ∀ n < 8, m ≠ n →
      (0x80 : UInt8) >>> UInt8.ofNat m &&& (0x80 : UInt8) >>> UInt8.ofNat n = 0 := by decide
  exact hall _ (Nat.mod_lt _ (by decide)) _ (Nat.mod_lt _ (by decide)) h

/-- Clearing another column's bit keeps a column. -/
theorem pixelMask_not_and_of_ne {j k : Nat} (h : j % 8 ≠ k % 8) :
    ~~~pixelMask j &&& pixelMask k = pixelMask k := by
  have hall : ∀ m < 8, ∀ n < 8, m ≠ n →
      ~~~((0x80 : UInt8) >>> UInt8.ofNat m) &&& (0x80 : UInt8) >>> UInt8.ofNat n
        = (0x80 : UInt8) >>> UInt8.ofNat n := by decide
  exact hall _ (Nat.mod_lt _ (by decide)) _ (Nat.mod_lt _ (by decide)) h

/-- Every column has a bit. -/
theorem pixelMask_ne_zero (k : Nat) : pixelMask k ≠ 0 := by
  have hall : ∀ n < 8, (0x80 : UInt8) >>> UInt8.ofNat n ≠ 0 := by decide
  exact hall _ (Nat.mod_lt _ (by decide))

/-- A bit of a combined byte. -/
theorem or_and_distrib (b m n : UInt8) : (b ||| m) &&& n = (b &&& n) ||| (m &&& n) := by
  rw [← UInt8.toNat_inj]
  simp [Nat.and_or_distrib_right]

/-- The byte `set_pixel` writes, seen through one column. -/
theorem and_pixelMask_setByte (b : UInt8) (j k : Nat) (black : Bool) :
    ((if black then b &&& ~~~pixelMask j else b ||| pixelMask j) &&& pixelMask k == 0)
      = if j % 8 = k % 8 then black else b &&& pixelMask k == 0 := by
  by_cases hcol : j % 8 = k % 8
  · have hmask : pixelMask j = pixelMask k := by rw [pixelMask, pixelMask, hcol]
    rw [if_pos hcol, hmask]
    cases black with
    | true => simp [UInt8.and_assoc]
    | false => simp [or_and_distrib, pixelMask_ne_zero]
  · rw [if_neg hcol]
    cases black with
    | true => simp [UInt8.and_assoc, pixelMask_not_and_of_ne hcol]
    | false => simp [or_and_distrib, pixelMask_and_of_ne hcol]

/-- A pixel of the panel is a bit of its byte. -/
theorem getPixel_of_onPanel (s : SharpLcd) {x y : UInt16} (h : OnPanel x y) :
    s.getPixel x y = (s.fb (panelByte h) &&& pixelMask x.toNat == 0) :=
  dif_pos h

/-- Off the panel there is no black. -/
theorem getPixel_of_not_onPanel (s : SharpLcd) {x y : UInt16} (h : ¬ OnPanel x y) :
    s.getPixel x y = false :=
  dif_neg h

/-- Two pixels share a byte when they are on one line, in one group of eight columns. -/
theorem panelByte_eq_iff {x y x' y' : UInt16} (h : OnPanel x y) (h' : OnPanel x' y') :
    panelByte h = panelByte h' ↔ y = y' ∧ x.toNat / 8 = x'.toNat / 8 := by
  constructor
  · intro heq
    obtain ⟨hy, hx⟩ := byteIndex_inj heq
    exact ⟨UInt16.toNat_inj.mp (Fin.mk.inj hy), Fin.mk.inj hx⟩
  · rintro ⟨rfl, hx⟩
    exact congrArg (byteIndex _) (Fin.ext hx)

/-- On the panel `set_pixel` writes one byte. -/
theorem setPixel_fb (s : SharpLcd) {x y : UInt16} (black : Bool) (h : OnPanel x y) :
    (s.setPixel x y black).fb = Function.update s.fb (panelByte h)
      (if black then s.fb (panelByte h) &&& ~~~pixelMask x.toNat
        else s.fb (panelByte h) ||| pixelMask x.toNat) := by
  unfold SharpLcd.setPixel
  rw [dif_pos h]
  -- marking the line does not touch the image
  exact (apply_ite SharpLcd.fb _ _ _).trans (ite_self _)

/-- **`set_pixel` inks its point.** -/
theorem inks_setPixel (s : SharpLcd) (x y : UInt16) (black : Bool) :
    Inks {(x, y)} black s (s.setPixel x y black) where
  inside := by
    intro x' y' hpanel hink
    obtain ⟨rfl, rfl⟩ := Prod.mk.inj (Set.mem_singleton_iff.mp hink)
    rw [getPixel_of_onPanel _ hpanel, setPixel_fb s black hpanel, Function.update_self,
      and_pixelMask_setByte, if_pos rfl]
  outside := by
    intro x' y' hout
    by_cases hpanel' : OnPanel x' y'
    · by_cases hpanel : OnPanel x y
      · have hne : ¬ (x' = x ∧ y' = y) := fun heq =>
          hout ⟨hpanel', Set.mem_singleton_iff.mpr (Prod.ext heq.1 heq.2)⟩
        rw [getPixel_of_onPanel _ hpanel', getPixel_of_onPanel _ hpanel',
          setPixel_fb s black hpanel]
        by_cases hbyte : panelByte hpanel' = panelByte hpanel
        · -- another column of the same byte
          obtain ⟨hy, hx⟩ := (panelByte_eq_iff hpanel' hpanel).mp hbyte
          have hcol : x.toNat % 8 ≠ x'.toNat % 8 := by
            intro hmod
            refine hne ⟨UInt16.toNat_inj.mp ?_, hy⟩
            omega
          rw [hbyte, Function.update_self, and_pixelMask_setByte, if_neg hcol]
        · rw [Function.update_of_ne hbyte]
      · rw [SharpLcd.setPixel, dif_neg hpanel]
    · rw [getPixel_of_not_onPanel _ hpanel', getPixel_of_not_onPanel _ hpanel']

/-! ## Inking composes -/

/-- Doing nothing inks nothing. -/
theorem Inks.refl (black : Bool) (s : SharpLcd) : Inks ∅ black s s :=
  ⟨fun _ _ _ h => absurd h (Set.notMem_empty _), fun _ _ _ => rfl⟩

/-- Two operations of one colour ink the union. -/
theorem Inks.trans {A B : Set Point} {black : Bool} {s t u : SharpLcd} (h : Inks A black s t)
    (h' : Inks B black t u) : Inks (A ∪ B) black s u where
  inside := by
    intro x y hpanel hink
    by_cases hB : (x, y) ∈ B
    · exact h'.inside x y hpanel hB
    · rw [h'.outside x y fun hin => hB hin.2]
      exact h.inside x y hpanel (hink.resolve_right hB)
  outside := by
    intro x y hout
    rw [h'.outside x y fun hin => hout ⟨hin.1, Or.inr hin.2⟩]
    exact h.outside x y fun hin => hout ⟨hin.1, Or.inl hin.2⟩

/-- Only the ink on the panel counts. -/
theorem Inks.congr {A B : Set Point} {black : Bool} {s t : SharpLcd} (h : Inks A black s t)
    (hAB : ∀ x y, OnPanel x y → ((x, y) ∈ A ↔ (x, y) ∈ B)) : Inks B black s t where
  inside x y hpanel hB := h.inside x y hpanel ((hAB x y hpanel).mpr hB)
  outside x y hout := h.outside x y fun hin => hout ⟨hin.1, (hAB x y hin.1).mp hin.2⟩

/-- The ink decides the picture. -/
theorem Inks.getPixel_eq {A : Set Point} {black : Bool} {s t u : SharpLcd} (h : Inks A black s t)
    (h' : Inks A black s u) : t.getPixel = u.getPixel := by
  funext x y
  by_cases hin : OnPanel x y ∧ (x, y) ∈ A
  · rw [h.inside x y hin.1 hin.2, h'.inside x y hin.1 hin.2]
  · rw [h.outside x y hin, h'.outside x y hin]

/-- **An operation that returns and inks a set of points.** -/
def Fills (op : SharpLcd → Option SharpLcd) (ink : Set Point) (black : Bool) (s : SharpLcd) :
    Prop :=
  ∃ t, op s = some t ∧ Inks ink black s t

/-- One operation after another inks the union. -/
theorem Fills.bind {f g : SharpLcd → Option SharpLcd} {A B : Set Point} {black : Bool}
    {s : SharpLcd} (hf : Fills f A black s) (hg : ∀ t, Fills g B black t) :
    Fills (fun s => (f s).bind g) (A ∪ B) black s := by
  obtain ⟨t, ht, hinkt⟩ := hf
  obtain ⟨u, hu, hinku⟩ := hg t
  exact ⟨u, by simp [ht, hu], hinkt.trans hinku⟩

/-- The counter of a loop from `a` with a 16-bit bound `b` that has not reached it. -/
def counters (a : UInt16) (b : Nat) : Set UInt16 := {i | a.toNat ≤ i.toNat ∧ i.toNat < b}

/-- **The loop rule**: a loop inks the union of what its steps ink. -/
theorem fills_forU16 {b : Nat} (hb : b ≤ 65535) {body : UInt16 → SharpLcd → Option SharpLcd}
    (ink : UInt16 → Set Point) {black : Bool} (a : UInt16)
    (hbody : ∀ i ∈ counters a b, ∀ s, Fills (body i) (ink i) black s) (s : SharpLcd) :
    Fills (forU16 a b body) (⋃ i ∈ counters a b, ink i) black s := by
  -- the counters as numbers, one after the other
  have hloop : ∀ (ns : List Nat) (s : SharpLcd), (∀ n ∈ ns, UInt16.ofNat n ∈ counters a b) →
      Fills (fun s => ns.foldlM (fun s n => body (UInt16.ofNat n) s) s)
        (⋃ n ∈ ns, ink (UInt16.ofNat n)) black s := by
    intro ns
    induction ns with
    | nil =>
      intro s _
      exact ⟨s, rfl, by simpa using Inks.refl black s⟩
    | cons n ns ih =>
      intro s hns
      have hstep := (hbody _ (hns n List.mem_cons_self) s).bind
        (fun t => ih t fun m hm => hns m (List.mem_cons_of_mem n hm))
      simpa [Fills] using hstep
  have hrange : ∀ n ∈ List.range' a.toNat (b - a.toNat), UInt16.ofNat n ∈ counters a b := by
    intro n hn
    rw [List.mem_range'_1] at hn
    have hn' : n < 65536 := by omega
    simp only [counters, Set.mem_ofPred_eq, UInt16.toNat_ofNat_of_lt' hn']
    omega
  obtain ⟨t, ht, hink⟩ := hloop _ s hrange
  refine ⟨t, by rw [forU16_eq_foldlM hb]; exact ht, hink.congr fun x y _ => ?_⟩
  simp only [Set.mem_iUnion, exists_prop]
  constructor
  · rintro ⟨n, hn, hxy⟩
    exact ⟨_, hrange n hn, hxy⟩
  · rintro ⟨i, hi, hxy⟩
    refine ⟨i.toNat, ?_, by simpa using hxy⟩
    rw [List.mem_range'_1]
    simp only [counters, Set.mem_ofPred_eq] at hi
    omega

/-! ## The primitives -/

/-- The points of a rectangle, its far edges in unbounded arithmetic. -/
def rect (x y w h : UInt16) : Set Point :=
  {p | (x.toNat ≤ p.1.toNat ∧ p.1.toNat < x.toNat + w.toNat) ∧
    (y.toNat ≤ p.2.toNat ∧ p.2.toNat < y.toNat + h.toNat)}

/-- The points that the dither pattern inks at a level. -/
def dithered (level : UInt8) : Set Point := {p | SharpLcd.ditherOn p.1 p.2 level = true}

/-- **`draw_hline`** inks its row when the far end is a 16-bit value. -/
theorem fills_drawHline {x w : UInt16} (hx : x.toNat + w.toNat ≤ 65535) (y : UInt16) (black : Bool)
    (s : SharpLcd) : Fills (fun s => s.drawHline x y w black) (rect x y w 1) black s := by
  obtain ⟨t, ht, hink⟩ := fills_forU16 hx (fun i => {(i, y)}) x
    (fun i _ s => ⟨s.setPixel i y black, rfl, inks_setPixel s i y black⟩) s
  refine ⟨t, ht, hink.congr fun x' y' _ => ?_⟩
  simp only [rect, counters, Set.mem_iUnion, Set.mem_ofPred_eq, Set.mem_singleton_iff,
    Prod.mk.injEq, exists_prop, UInt16.toNat_one]
  constructor
  · rintro ⟨i, hi, rfl, rfl⟩
    exact ⟨hi, le_refl _, Nat.lt_succ_self _⟩
  · rintro ⟨hx', hy'⟩
    exact ⟨x', hx', rfl, UInt16.toNat_inj.mp (by omega)⟩

/-- The rows of a rectangle make it up. -/
theorem iUnion_rows (x y w h : UInt16) :
    ⋃ i ∈ counters y (y.toNat + h.toNat), rect x i w 1 = rect x y w h := by
  ext ⟨x', y'⟩
  simp only [rect, counters, Set.mem_iUnion, Set.mem_ofPred_eq, exists_prop, UInt16.toNat_one]
  constructor
  · rintro ⟨i, hi, hx', hy'⟩
    exact ⟨hx', by omega, by omega⟩
  · rintro ⟨hx', hy'⟩
    exact ⟨y', hy', hx', le_refl _, Nat.lt_succ_self _⟩

/-- **`fill_rect`** inks its rectangle when it returns at all: when the far edges are 16-bit
values, or the lower one is and there is no row. -/
theorem fills_fillRect {x y w h : UInt16} (hy : y.toNat + h.toNat ≤ 65535)
    (hx : h = 0 ∨ x.toNat + w.toNat ≤ 65535) (black : Bool) (s : SharpLcd) :
    Fills (fun s => s.fillRect x y w h black) (rect x y w h) black s := by
  rw [← iUnion_rows]
  refine fills_forU16 hy (fun i => rect x i w 1) y (fun i hi s => ?_) s
  have hrow : x.toNat + w.toNat ≤ 65535 := by
    refine hx.resolve_left ?_
    rintro rfl
    simp only [counters, Set.mem_ofPred_eq, UInt16.toNat_zero] at hi
    omega
  exact fills_drawHline hrow i black s

/-- No threshold of the pattern is above 248. -/
theorem ditherOn_of_faint {level : UInt8} (h : level ≥ 249) (x y : UInt16) :
    SharpLcd.ditherOn x y level = false := by
  have hall : ∀ i < 16, SharpLcd.bayer4.getD i 0 < 249 := by decide
  have hindex : y.toNat % 4 * 4 + x.toNat % 4 < 16 := by omega
  rw [SharpLcd.ditherOn, decide_eq_false_iff_not, UInt8.not_le]
  exact UInt8.lt_of_lt_of_le (hall _ hindex) h

/-- One point of the pattern. -/
theorem fills_ditherPoint (x y : UInt16) (level : UInt8) (s : SharpLcd) :
    Fills (fun s => some (if SharpLcd.ditherOn x y level then s.setPixel x y true else s))
      ({(x, y)} ∩ dithered level) true s := by
  refine ⟨_, rfl, ?_⟩
  -- a point off the pattern is left as it was, white or black
  by_cases hon : SharpLcd.ditherOn x y level = true
  · rw [if_pos hon]
    refine (inks_setPixel s x y true).congr fun x' y' _ => ?_
    simp only [dithered, Set.mem_inter_iff, Set.mem_singleton_iff, Set.mem_ofPred_eq,
      Prod.mk.injEq]
    constructor
    · rintro ⟨rfl, rfl⟩
      exact ⟨⟨rfl, rfl⟩, hon⟩
    · exact And.left
  · rw [if_neg hon]
    refine (Inks.refl true s).congr fun x' y' _ => ?_
    simp only [dithered, Set.mem_inter_iff, Set.mem_singleton_iff, Set.mem_ofPred_eq,
      Prod.mk.injEq, Set.mem_empty_iff_false, false_iff]
    rintro ⟨⟨rfl, rfl⟩, h⟩
    exact hon h

/-- **`fill_dither`** inks the pattern over its rectangle, wherever that lies. -/
theorem fills_fillDither (x y w h : UInt16) (level : UInt8) (s : SharpLcd) :
    Fills (fun s => s.fillDither x y w h level) (rect x y w h ∩ dithered level) true s := by
  unfold SharpLcd.fillDither
  split
  next hfaint =>
    refine ⟨s, rfl, (Inks.refl true s).congr fun x' y' _ => ?_⟩
    simp [dithered, ditherOn_of_faint hfaint]
  next =>
    -- both loops stop at the edge of the panel, which is a 16-bit value
    have hright : min (x.toNat + w.toNat) lcdWidth ≤ 65535 :=
      (Nat.min_le_right _ _).trans (by decide)
    have hbottom : min (y.toNat + h.toNat) lcdHeight ≤ 65535 :=
      (Nat.min_le_right _ _).trans (by decide)
    obtain ⟨t, ht, hink⟩ := fills_forU16 hbottom
      (fun j => ⋃ i ∈ counters x (min (x.toNat + w.toNat) lcdWidth), {(i, j)} ∩ dithered level) y
      (fun j _ s => fills_forU16 hright (fun i => {(i, j)} ∩ dithered level) x
        (fun i _ s => fills_ditherPoint i j level s) s) s
    refine ⟨t, ht, hink.congr fun x' y' hpanel => ?_⟩
    simp only [rect, counters, dithered, Set.mem_iUnion, Set.mem_inter_iff, Set.mem_ofPred_eq,
      Set.mem_singleton_iff, Prod.mk.injEq, exists_prop]
    constructor
    · rintro ⟨j, hj, i, hi, ⟨rfl, rfl⟩, hon⟩
      exact ⟨⟨⟨hi.1, by omega⟩, hj.1, by omega⟩, hon⟩
    · rintro ⟨⟨hx, hy⟩, hon⟩
      have hx' := hpanel.1
      have hy' := hpanel.2
      exact ⟨y', ⟨hy.1, by omega⟩, x', ⟨hx.1, by omega⟩, ⟨rfl, rfl⟩, hon⟩

/-! ## Adjacent rectangles -/

/-- Doing `f` and `g`, in either order, draws what `whole` draws. -/
def Joins (f g whole : SharpLcd → Option SharpLcd) (s : SharpLcd) : Prop :=
  ∃ t u v, whole s = some t ∧ (f s).bind g = some u ∧ (g s).bind f = some v ∧
    u.getPixel = t.getPixel ∧ v.getPixel = t.getPixel

/-- **Operations of one colour commute**, and draw what an operation on the union draws. -/
theorem Fills.joins {f g whole : SharpLcd → Option SharpLcd} {A B C : Set Point} {black : Bool}
    (hf : ∀ s, Fills f A black s) (hg : ∀ s, Fills g B black s)
    (hwhole : ∀ s, Fills whole C black s) (hC : C = A ∪ B) (s : SharpLcd) : Joins f g whole s := by
  obtain ⟨t, ht, hinkt⟩ := hwhole s
  obtain ⟨u, hu, hinku⟩ := (hf s).bind hg
  obtain ⟨v, hv, hinkv⟩ := (hg s).bind hf
  subst hC
  rw [Set.union_comm] at hinkv
  exact ⟨t, u, v, ht, hu, hv, hinku.getPixel_eq hinkt, hinkv.getPixel_eq hinkt⟩

/-- A rectangle cut between two columns. -/
theorem rect_columns {x x' y w w₁ w₂ h : UInt16} (hx : x'.toNat = x.toNat + w₁.toNat)
    (hw : w.toNat = w₁.toNat + w₂.toNat) : rect x y w h = rect x y w₁ h ∪ rect x' y w₂ h := by
  ext ⟨px, py⟩
  simp only [rect, Set.mem_union, Set.mem_ofPred_eq]
  omega

/-- A rectangle cut between two rows. -/
theorem rect_rows {x y y' w h h₁ h₂ : UInt16} (hy : y'.toNat = y.toNat + h₁.toNat)
    (hh : h.toNat = h₁.toNat + h₂.toNat) : rect x y w h = rect x y w h₁ ∪ rect x y' w h₂ := by
  ext ⟨px, py⟩
  simp only [rect, Set.mem_union, Set.mem_ofPred_eq]
  omega

/-! ## The law of the primitives -/

/-- **A rectangle primitive is total and exact** at a rectangle: it returns, it inks the rectangle
and nothing else, and whichever two adjacent rectangles make the rectangle up, filling them in
either order draws the same. `rows` is false for a primitive of height one, which cannot be cut
between rows. -/
structure TotalAndExact (op : UInt16 → UInt16 → UInt16 → UInt16 → SharpLcd → Option SharpLcd)
    (pattern : Set Point) (black rows : Bool) (x y w h : UInt16) (s : SharpLcd) : Prop where
  /-- The operation returns, and what it inks. -/
  fills : Fills (op x y w h) (rect x y w h ∩ pattern) black s
  /-- Side by side. -/
  columns : ∀ x' w₁ w₂ : UInt16, x'.toNat = x.toNat + w₁.toNat →
    w.toNat = w₁.toNat + w₂.toNat → Joins (op x y w₁ h) (op x' y w₂ h) (op x y w h) s
  /-- One above the other. -/
  stacked : rows = true → ∀ y' h₁ h₂ : UInt16, y'.toNat = y.toNat + h₁.toNat →
    h.toNat = h₁.toNat + h₂.toNat → Joins (op x y w h₁) (op x y' w h₂) (op x y w h) s

/-- A primitive that inks a rectangle and the pieces of its cuts is total and exact there. -/
theorem totalAndExact_of_fills {op : UInt16 → UInt16 → UInt16 → UInt16 → SharpLcd → Option SharpLcd}
    {pattern : Set Point} {black rows : Bool} {x y w h : UInt16}
    (hwhole : ∀ s, Fills (op x y w h) (rect x y w h ∩ pattern) black s)
    (hcolumns : ∀ x' v : UInt16, x.toNat ≤ x'.toNat → x'.toNat + v.toNat ≤ x.toNat + w.toNat →
      ∀ s, Fills (op x' y v h) (rect x' y v h ∩ pattern) black s)
    (hrows : rows = true → ∀ y' v : UInt16, y.toNat ≤ y'.toNat →
      y'.toNat + v.toNat ≤ y.toNat + h.toNat →
      ∀ s, Fills (op x y' w v) (rect x y' w v ∩ pattern) black s)
    (s : SharpLcd) : TotalAndExact op pattern black rows x y w h s where
  fills := hwhole s
  columns := by
    intro x' w₁ w₂ hx hw
    -- each part of a cut lies within the rectangle
    refine Fills.joins (hcolumns x w₁ ?_ ?_) (hcolumns x' w₂ ?_ ?_) hwhole ?_ s
    · omega
    · omega
    · omega
    · omega
    · rw [rect_columns hx hw, Set.union_inter_distrib_right]
  stacked := by
    intro hr y' h₁ h₂ hy hh
    refine Fills.joins (hrows hr y h₁ ?_ ?_) (hrows hr y' h₂ ?_ ?_) hwhole ?_ s
    · omega
    · omega
    · omega
    · omega
    · rw [rect_rows hy hh, Set.union_inter_distrib_right]

/-- `fill_rect`, by place and size. -/
abbrev fillRectOp (black : Bool) (x y w h : UInt16) (s : SharpLcd) : Option SharpLcd :=
  s.fillRect x y w h black

/-- `draw_hline`, by place and width; it has no height. -/
abbrev drawHlineOp (black : Bool) (x y w _h : UInt16) (s : SharpLcd) : Option SharpLcd :=
  s.drawHline x y w black

/-- `fill_dither`, by place and size. -/
abbrev fillDitherOp (level : UInt8) (x y w h : UInt16) (s : SharpLcd) : Option SharpLcd :=
  s.fillDither x y w h level

/-- `fill_rect` at a rectangle whose far edges are 16-bit values. -/
theorem totalAndExact_fillRect {x y w h : UInt16} (hy : y.toNat + h.toNat ≤ 65535)
    (hx : h = 0 ∨ x.toNat + w.toNat ≤ 65535) (black : Bool) (s : SharpLcd) :
    TotalAndExact (fillRectOp black) Set.univ black true x y w h s := by
  apply totalAndExact_of_fills
  · intro s
    rw [Set.inter_univ]
    exact fills_fillRect hy hx black s
  · intro x' v hle hfar s
    rw [Set.inter_univ]
    exact fills_fillRect hy (hx.imp id fun h => hfar.trans h) black s
  · intro _ y' v hle hfar s
    rw [Set.inter_univ]
    refine fills_fillRect (hfar.trans hy) (hx.imp (fun h0 => ?_) id) black s
    subst h0
    exact UInt16.toNat_inj.mp (by simp only [UInt16.toNat_zero] at hfar ⊢; omega)

/-- `draw_hline` at a row whose far end is a 16-bit value. -/
theorem totalAndExact_drawHline {x w : UInt16} (hx : x.toNat + w.toNat ≤ 65535) (y : UInt16)
    (black : Bool) (s : SharpLcd) :
    TotalAndExact (drawHlineOp black) Set.univ black false x y w 1 s := by
  apply totalAndExact_of_fills
  · intro s
    rw [Set.inter_univ]
    exact fills_drawHline hx y black s
  · intro x' v hle hfar s
    rw [Set.inter_univ]
    exact fills_drawHline (hfar.trans hx) y black s
  · intro hr
    exact absurd hr (by decide)

/-- `draw_hline` to a far end beyond 16 bits never returns. -/
theorem drawHline_eq_none {x w : UInt16} (hx : ¬ x.toNat + w.toNat ≤ 65535) (y : UInt16)
    (black : Bool) (s : SharpLcd) : s.drawHline x y w black = none :=
  forUpTo_eq_none (by omega) _ _ _

/-- `fill_rect` to far edges beyond 16 bits never returns. -/
theorem fillRect_eq_none {x y w h : UInt16}
    (hno : ¬ (y.toNat + h.toNat ≤ 65535 ∧ (h = 0 ∨ x.toNat + w.toNat ≤ 65535))) (black : Bool)
    (s : SharpLcd) : s.fillRect x y w h black = none := by
  by_cases hy : y.toNat + h.toNat ≤ 65535
  · -- the first row does not come back
    have hrow : ¬ x.toNat + w.toNat ≤ 65535 := fun hx => hno ⟨hy, Or.inr hx⟩
    have hh : h.toNat ≠ 0 := fun h0 => hno ⟨hy, Or.inl (UInt16.toNat_inj.mp h0)⟩
    exact forU16_eq_none (fun i s => drawHline_eq_none hrow i black s) (by omega) s
  · exact forUpTo_eq_none (by omega) _ _ _

/-- `fill_rect` is total and exact where its far edges are 16-bit values; an empty one may reach
beyond on the right. -/
theorem totalAndExact_fillRect_iff (black : Bool) (x y w h : UInt16) (s : SharpLcd) :
    TotalAndExact (fillRectOp black) Set.univ black true x y w h s ↔
      y.toNat + h.toNat ≤ 65535 ∧ (h = 0 ∨ x.toNat + w.toNat ≤ 65535) := by
  constructor
  · intro hexact
    by_contra hno
    obtain ⟨t, ht, _⟩ := hexact.fills
    rw [fillRectOp, fillRect_eq_none hno black s] at ht
    cases ht
  · intro hfit
    exact totalAndExact_fillRect hfit.1 hfit.2 black s

/-- `draw_hline` is total and exact where its far end is a 16-bit value. -/
theorem totalAndExact_drawHline_iff (black : Bool) (x y w : UInt16) (s : SharpLcd) :
    TotalAndExact (drawHlineOp black) Set.univ black false x y w 1 s ↔
      x.toNat + w.toNat ≤ 65535 := by
  constructor
  · intro hexact
    by_contra hno
    obtain ⟨t, ht, _⟩ := hexact.fills
    rw [drawHlineOp, drawHline_eq_none hno y black s] at ht
    cases ht
  · intro hfit
    exact totalAndExact_drawHline hfit y black s

/-- `fill_dither` is total and exact everywhere. -/
theorem totalAndExact_fillDither (level : UInt8) (x y w h : UInt16) (s : SharpLcd) :
    TotalAndExact (fillDitherOp level) (dithered level) true true x y w h s := by
  apply totalAndExact_of_fills
  · exact fills_fillDither x y w h level
  · intro x' v _ _ s
    exact fills_fillDither x' y v h level s
  · intro _ y' v _ _ s
    exact fills_fillDither x y' w v level s

/-- All three primitives at one rectangle, in every colour and at every level; `draw_hline` takes
its upper edge. -/
structure RectanglesExact (x y w h : UInt16) (s : SharpLcd) : Prop where
  /-- `fill_rect`. -/
  fillRect : ∀ black, TotalAndExact (fillRectOp black) Set.univ black true x y w h s
  /-- `draw_hline`. -/
  drawHline : ∀ black, TotalAndExact (drawHlineOp black) Set.univ black false x y w 1 s
  /-- `fill_dither`. -/
  fillDither : ∀ level, TotalAndExact (fillDitherOp level) (dithered level) true true x y w h s

/-- **When the rectangle primitives are total and exact**: all three where the far edges are
16-bit values, and each alone under its own part of that. -/
theorem rectangles_exact_iff (x y w h : UInt16) (s : SharpLcd) :
    (RectanglesExact x y w h s ↔
        x.toNat + w.toNat ≤ 65535 ∧ y.toNat + h.toNat ≤ 65535) ∧
      (∀ black, TotalAndExact (fillRectOp black) Set.univ black true x y w h s ↔
        y.toNat + h.toNat ≤ 65535 ∧ (h = 0 ∨ x.toNat + w.toNat ≤ 65535)) ∧
      (∀ black, TotalAndExact (drawHlineOp black) Set.univ black false x y w 1 s ↔
        x.toNat + w.toNat ≤ 65535) ∧
      ∀ level, TotalAndExact (fillDitherOp level) (dithered level) true true x y w h s := by
  refine ⟨⟨fun hall => ?_, fun hfit => ?_⟩, fun black => totalAndExact_fillRect_iff black x y w h s,
    fun black => totalAndExact_drawHline_iff black x y w s,
    fun level => totalAndExact_fillDither level x y w h s⟩
  · exact ⟨(totalAndExact_drawHline_iff true x y w s).mp (hall.drawHline true),
      ((totalAndExact_fillRect_iff true x y w h s).mp (hall.fillRect true)).1⟩
  · exact ⟨fun black => totalAndExact_fillRect hfit.2 (Or.inr hfit.1) black s,
      fun black => totalAndExact_drawHline hfit.1 y black s,
      fun level => totalAndExact_fillDither level x y w h s⟩

/-- A line from the last column never returns: the law does not hold of every rectangle. -/
theorem hline_at_65535_hangs :
    ¬ ∀ (x y w h : UInt16) (s : SharpLcd), RectanglesExact x y w h s := by
  intro hall
  obtain ⟨t, ht, _⟩ := ((hall 65535 0 1 1 { fb := fun _ => 0xFF }).drawHline true).fills
  rw [drawHlineOp, drawHline_eq_none (by decide)] at ht
  cases ht

end Thicket.Lcd
