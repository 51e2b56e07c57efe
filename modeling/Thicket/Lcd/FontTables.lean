import Thicket.Lcd.TextInk
import Thicket.Scripts.Bdf

/-! # The tables the driver searches

`CozetteFont.h`, `CozetteBig.h` and `TamzenFont.h` are generated, `EmojiGlyphs.h` is written by
hand. `SharpLcd.cpp` finds a codepoint in them by binary search. What it draws of a codepoint is the
bitmap of the font it came from, dot for dot. -/

namespace Thicket.Lcd

open BinarySearch Scripts.Bdf

/-- The tables that are compiled in. -/
structure FontTables where
  /-- `CozetteFont.h`. -/
  cozette : Header
  /-- `CozetteBig.h`. -/
  cozetteBig : Header
  /-- `TamzenFont.h`. -/
  tamzen : BoldFace → Header
  /-- `EMOJI`. -/
  emoji : List (Nat × List Nat)

/-- Rows of eight columns. -/
def rows8 (rows : List Nat) (row : Nat) : UInt8 := UInt8.ofNat (rows.getD row 0)

/-- Rows of sixteen. -/
def rows16 (rows : List Nat) (row : Nat) : UInt16 := UInt16.ofNat (rows.getD row 0)

/-- **The lookups**: `FONT` by index, the other tables by binary search. -/
def FontTables.fonts (T : FontTables) : Fonts where
  ascii cp := rows8 (T.cozette.direct.getD (cp - 32).toNat [])
  extra cp := (search T.cozette.sorted cp.toNat).map rows8
  emoji cp := (search T.emoji cp.toNat).map rows8
  big cp := (search T.cozetteBig.sorted cp.toNat).map rows16
  bold face cp := (search (T.tamzen face).sorted cp.toNat).map rows8

/-- The fonts the headers were generated from. -/
structure Sources where
  /-- `cozette.bdf`. -/
  cozette : Font
  /-- `cozette_hidpi.bdf`. -/
  cozetteBig : Font
  /-- The three of Tamzen. -/
  tamzen : BoldFace → Font

/-- **The headers are generated**, for the cells the driver has. -/
structure Generated (S : Sources) (T : FontTables) : Prop where
  /-- `scripts/bdf2header.py`. -/
  cozette_eq : bdf2header S.cozette = some T.cozette
  /-- `FONT_INK_W` and `FONT_H`. -/
  cozette_cell : T.cozette.inkW = fontInkW ∧ T.cozette.h = fontH
  /-- `scripts/bdf2big.py`. -/
  cozetteBig_eq : bdf2big S.cozetteBig = some T.cozetteBig
  /-- `BIGFONT_INK_W` and `BIGFONT_H`. -/
  cozetteBig_cell : T.cozetteBig.inkW = bigFontInkW ∧ T.cozetteBig.h = bigFontH
  /-- `scripts/bdf2tamzen.py`. -/
  tamzen_eq : ∀ face, Scripts.Bdf.face (S.tamzen face) = some (T.tamzen face)
  /-- `BOLD6_H`, `BOLD7_H`, `BOLD8_H`. -/
  tamzen_cell : ∀ face, (T.tamzen face).h = boldH face

/-! ## Dots -/

/-- The dots of a rendered glyph are its ink. -/
theorem bitDots_render (g : Glyph) {top w h : Nat} {cellW cellH ascent : Int} {bits : Nat → Nat}
    (hbits : ∀ row, bits row = (g.render top cellW cellH ascent).getD row 0) (hh : cellH = h)
    (hw : cellW ≤ w) (htop : w ≤ top + 1) :
    bitDots bits h w top = g.ink cellW cellH ascent := by
  ext ⟨col, row⟩
  rw [bitDots, Set.mem_ofPred_eq]
  dsimp only
  constructor
  · rintro ⟨-, hcol, hbit⟩
    rw [hbits] at hbit
    exact (g.testBit_render cellW cellH ascent (by omega) row).mp hbit
  · intro hink
    obtain ⟨i, r, x, -, -, -, -, -, hcolW, hrowH⟩ := id hink
    dsimp only at hcolW hrowH
    refine ⟨by omega, by omega, ?_⟩
    rw [hbits]
    exact (g.testBit_render cellW cellH ascent (by omega) row).mpr hink

/-- A rendered row is in eight bits. -/
theorem toNat_rows8 (g : Glyph) (cellW cellH ascent : Int) (row : Nat) :
    (rows8 (g.render 7 cellW cellH ascent) row).toNat
      = (g.render 7 cellW cellH ascent).getD row 0 := by
  rw [rows8, UInt8.toNat_ofNat']
  exact Nat.mod_eq_of_lt (g.render_lt 7 cellW cellH ascent row)

/-- A rendered row is in sixteen bits. -/
theorem toNat_rows16 (g : Glyph) (cellW cellH ascent : Int) (row : Nat) :
    (rows16 (g.render 15 cellW cellH ascent) row).toNat
      = (g.render 15 cellW cellH ascent).getD row 0 := by
  rw [rows16, UInt16.toNat_ofNat']
  exact Nat.mod_eq_of_lt (g.render_lt 15 cellW cellH ascent row)

/-! ## The body face -/

/-- The glyphs of the body face that are kept. -/
def Sources.body (S : Sources) : List (Nat × Glyph) :=
  match advance S.cozette.glyphs with
  | none => []
  | some advance => S.cozette.glyphs.filter fun g => !g.2.oversize advance

/-- The glyphs of the heading face that are kept. -/
def Sources.heading (S : Sources) : List (Nat × Glyph) :=
  match advance S.cozetteBig.glyphs with
  | none => []
  | some advance => S.cozetteBig.glyphs.filter fun g => g.2.dwidth == advance

/-- A list of results, one for each element. -/
theorem map_of_mapM {α β : Type} {f : α → Option β} {l : List α} {l' : List β}
    (h : l.mapM f = some l') : l.map f = l'.map some := by
  induction l generalizing l' with
  | nil =>
    rw [List.mapM_nil] at h
    obtain rfl := Option.some.inj h
    rfl
  | cons a l ih =>
    rw [List.mapM_cons] at h
    obtain ⟨b, hb, hrest⟩ := Option.bind_eq_some_iff.mp h
    obtain ⟨bs, hbs, hl'⟩ := Option.bind_eq_some_iff.mp hrest
    obtain rfl := Option.some.inj hl'
    rw [List.map_cons, List.map_cons, hb, ih hbs]

/-- The codepoints that `glyph_for` looks up in `FONT_EXTRA`. -/
structure Searched (c : Nat) : Prop where
  /-- Not ASCII. -/
  printable : ¬ (32 ≤ c ∧ c ≤ 126)
  /-- In the basic plane. -/
  basic : c ≤ 0xFFFF
  /-- Not braille. -/
  braille : ¬ (0x2800 ≤ c ∧ c ≤ 0x28FF)
  /-- Not a joiner. -/
  joiner : ¬ (c = 0x200D ∨ c = 0xFE0E ∨ c = 0xFE0F)

/-- The search of the body face. -/
theorem glyphFor_eq_extra (F : Fonts) {cp : UInt32} (h : Searched cp.toNat) :
    glyphFor F cp = F.extra cp := by
  have hprintable : ¬ (32 ≤ cp ∧ cp ≤ 126) := by
    rw [UInt32.le_iff_toNat_le, UInt32.le_iff_toNat_le]
    exact h.printable
  have hbraille : ¬ (0x2800 ≤ cp ∧ cp ≤ 0x28FF) := by
    rw [UInt32.le_iff_toNat_le, UInt32.le_iff_toNat_le]
    exact h.braille
  have hjoiner : ¬ (cp = 0x200D ∨ cp = 0xFE0E ∨ cp = 0xFE0F) := by
    rw [← UInt32.toNat_inj, ← UInt32.toNat_inj, ← UInt32.toNat_inj]
    exact h.joiner
  have hbasic : cp ≤ 0xFFFF := UInt32.le_iff_toNat_le.mpr h.basic
  rw [glyphFor, if_neg hprintable, if_neg hbraille, if_neg hjoiner, if_pos hbasic]

/-- The codepoints that the header has beyond ASCII are among them. -/
theorem searched_of_mem_extra {c : Nat} (h : c ∈ extra) : Searched c := by
  simp only [extra, Finset.mem_sort, List.mem_toFinset, List.mem_append, List.mem_flatMap,
    extraRanges, extraSingles, List.mem_cons, List.not_mem_nil, or_false, exists_eq_or_imp,
    exists_eq_left, List.mem_range'_1] at h
  constructor <;> omega

variable {S : Sources} {T : FontTables}

/-- What `bdf2header.py` puts into its tables. -/
theorem Generated.cozette_tables (h : Generated S T) :
    let render := fun g : Glyph => g.render 7 T.cozette.inkW T.cozette.h S.cozette.ascent
    (ascii.mapM fun c => (S.body.lookup c).map render) = some T.cozette.direct ∧
      T.cozette.sorted = sheet render S.body extra := by
  have hgen := h.cozette_eq
  rw [bdf2header] at hgen
  obtain ⟨adv, hadv, hgen⟩ := Option.bind_eq_some_iff.mp hgen
  have hbody : S.body = S.cozette.glyphs.filter fun g => !g.2.oversize adv := by
    rw [Sources.body, hadv]
  obtain ⟨inkW, -, hgen⟩ := Option.bind_eq_some_iff.mp hgen
  rw [← hbody] at hgen
  dsimp only at hgen ⊢
  split at hgen
  · cases hgen
  split at hgen
  · cases hgen
  obtain ⟨direct, hdirect, hgen⟩ := Option.bind_eq_some_iff.mp hgen
  rw [← Option.some.inj hgen]
  exact ⟨hdirect, rfl⟩

/-- **The body face finds what is kept of its font**: ASCII by index, the other codepoints of the
header by search, none beyond. -/
theorem Generated.glyphFor_eq (h : Generated S T) {cp : UInt32}
    (hcarried : cp.toNat ∈ ascii ++ extra) : glyphFor T.fonts cp = (S.body.lookup cp.toNat).map
      fun g => rows8 (g.render 7 fontInkW fontH S.cozette.ascent) := by
  obtain ⟨hdirect, hsorted⟩ := h.cozette_tables
  rw [h.cozette_cell.1, h.cozette_cell.2] at hdirect hsorted
  rw [List.mem_append] at hcarried
  obtain hascii | hextra := hcarried
  · have hrange : 32 ≤ cp.toNat ∧ cp.toNat < 127 := by
      simpa [ascii, List.mem_range'_1] using hascii
    have hin : 32 ≤ cp ∧ cp ≤ 126 :=
      ⟨UInt32.le_iff_toNat_le.mpr hrange.1, UInt32.le_iff_toNat_le.mpr (Nat.le_of_lt_succ hrange.2)⟩
    have hindex : (cp - 32).toNat = cp.toNat - 32 := UInt32.toNat_sub_of_le _ _ hin.1
    -- the entry of `FONT` at the codepoint
    have hentry := congrArg (fun l => l[cp.toNat - 32]?) (map_of_mapM hdirect)
    have hcode : ascii[cp.toNat - 32]? = some cp.toNat := by
      rw [ascii, List.getElem?_range' (by omega)]
      congr 1
      omega
    simp only [List.getElem?_map, hcode, Option.map_some] at hentry
    rw [glyphFor, if_pos hin, FontTables.fonts]
    dsimp only
    rw [hindex, List.getD_eq_getElem?_getD]
    cases hlookup : S.body.lookup cp.toNat with
    | none =>
      rw [hlookup] at hentry
      cases hget : T.cozette.direct[cp.toNat - 32]? <;> simp [hget] at hentry
    | some g =>
      rw [hlookup] at hentry
      cases hget : T.cozette.direct[cp.toNat - 32]? with
      | none => simp [hget] at hentry
      | some rows =>
        rw [hget] at hentry
        obtain rfl := Option.some.inj (Option.some.inj hentry)
        rfl
  · rw [glyphFor_eq_extra T.fonts (searched_of_mem_extra hextra), FontTables.fonts]
    dsimp only
    rw [hsorted, search_sheet pairwise_extra length_extra_lt, if_pos hextra, Option.map_map]
    rfl

/-- A codepoint the header was not asked for is a box. -/
theorem Generated.glyphFor_eq_none (h : Generated S T) {cp : UInt32} (hcp : Searched cp.toNat)
    (hextra : cp.toNat ∉ extra) : glyphFor T.fonts cp = none := by
  rw [glyphFor_eq_extra T.fonts hcp, FontTables.fonts]
  dsimp only
  rw [h.cozette_tables.2, search_sheet pairwise_extra length_extra_lt, if_neg hextra]
  rfl

/-! ## The other faces -/

/-- The codepoints of the other faces, counted. -/
theorem length_ascii_latin1_lt : (ascii ++ latin1).length < 2 ^ 16 := by
  rw [List.length_append, ascii, latin1, List.length_range', List.length_range']
  decide

/-- **The heading face finds what is kept of its font.** -/
theorem Generated.big_eq (h : Generated S T) (cp : UInt32) : T.fonts.big cp
    = if cp.toNat ∈ ascii ++ latin1 then (S.heading.lookup cp.toNat).map
        fun g => rows16 (g.render 15 bigFontInkW bigFontH S.cozetteBig.ascent)
      else none := by
  have hgen := h.cozetteBig_eq
  rw [bdf2big] at hgen
  obtain ⟨adv, hadv, hgen⟩ := Option.bind_eq_some_iff.mp hgen
  have hheading : S.heading = S.cozetteBig.glyphs.filter fun g => g.2.dwidth == adv := by
    rw [Sources.heading, hadv]
  obtain ⟨inkW, -, hgen⟩ := Option.bind_eq_some_iff.mp hgen
  rw [← hheading] at hgen
  split at hgen
  · cases hgen
  obtain ⟨hink, hh⟩ := h.cozetteBig_cell
  have hT := Option.some.inj hgen
  rw [← hT] at hink hh
  dsimp only at hink hh
  rw [FontTables.fonts, ← hT]
  dsimp only
  rw [search_sheet pairwise_ascii_latin1 length_ascii_latin1_lt, hink, hh]
  split
  · rw [Option.map_map]
    rfl
  · rfl

/-- **A bold face finds its font**, in ink no wider than a byte. -/
theorem Generated.bold_eq (h : Generated S T) (face : BoldFace) (cp : UInt32) :
    (T.tamzen face).inkW ≤ 8 ∧ T.fonts.bold face cp
      = if cp.toNat ∈ ascii ++ latin1 then ((S.tamzen face).glyphs.lookup cp.toNat).map
          fun g => rows8 (g.render 7 (T.tamzen face).inkW (boldH face) (S.tamzen face).ascent)
        else none := by
  have hgen := h.tamzen_eq face
  rw [Scripts.Bdf.face] at hgen
  obtain ⟨adv, -, hgen⟩ := Option.bind_eq_some_iff.mp hgen
  obtain ⟨inkW, -, hgen⟩ := Option.bind_eq_some_iff.mp hgen
  split at hgen
  · cases hgen
  next hle =>
    have hh := h.tamzen_cell face
    have hT := Option.some.inj hgen
    rw [FontTables.fonts]
    dsimp only
    rw [← hT] at hh ⊢
    dsimp only at hh ⊢
    refine ⟨by omega, ?_⟩
    rw [search_sheet pairwise_ascii_latin1 length_ascii_latin1_lt, hh]
    split
    · rw [Option.map_map]
      rfl
    · rfl

/-! ## What is drawn -/

/-- **The driver draws the fonts.** What each face inks of a codepoint is the bitmap of its BDF font
at its place in the cell, dot for dot: in the body face for every codepoint of the header whose
glyph is one cell wide, and any other that `glyph_for` searches for is missing; in the heading and
the bold faces for ASCII and Latin-1, and nothing otherwise. -/
theorem dots_of_fonts (h : Generated S T) (cp : UInt32) :
    (cp.toNat ∈ ascii ++ extra →
      ((glyphFor T.fonts cp).isSome = (S.body.lookup cp.toNat).isSome ∧
        TextCall.carriedDots T.fonts cp = {d | ∃ g ∈ S.body.lookup cp.toNat,
          d ∈ g.ink fontInkW fontH S.cozette.ascent})) ∧
    (Searched cp.toNat → cp.toNat ∉ extra → glyphFor T.fonts cp = none) ∧
    TextCall.big.dots T.fonts cp = {d | cp.toNat ∈ ascii ++ latin1 ∧
      ∃ g ∈ S.heading.lookup cp.toNat, d ∈ g.ink bigFontInkW bigFontH S.cozetteBig.ascent} ∧
    ∀ face, (TextCall.bold face).dots T.fonts cp = {d | cp.toNat ∈ ascii ++ latin1 ∧
      ∃ g ∈ (S.tamzen face).glyphs.lookup cp.toNat,
        d ∈ g.ink (T.tamzen face).inkW (boldH face) (S.tamzen face).ascent} := by
  refine ⟨fun hcarried => ?_, h.glyphFor_eq_none, ?_, fun face => ?_⟩
  · rw [TextCall.carriedDots, h.glyphFor_eq hcarried]
    refine ⟨Option.isSome_map, ?_⟩
    cases S.body.lookup cp.toNat with
    | none => simp
    | some g =>
      have hdots := bitDots_render g (toNat_rows8 g fontInkW fontH S.cozette.ascent) rfl le_rfl
        (by decide)
      simpa using hdots
  · rw [TextCall.dots, h.big_eq cp]
    split
    next hin =>
      cases S.heading.lookup cp.toNat with
      | none => simp
      | some g =>
        have hdots := bitDots_render g
          (toNat_rows16 g bigFontInkW bigFontH S.cozetteBig.ascent) rfl le_rfl (by decide)
        simpa [hin] using hdots
    next hout => simp [hout]
  · obtain ⟨hwide, hbold⟩ := h.bold_eq face cp
    rw [TextCall.dots, hbold]
    split
    next hin =>
      cases (S.tamzen face).glyphs.lookup cp.toNat with
      | none => simp
      | some g =>
        have hdots := bitDots_render g
          (toNat_rows8 g (T.tamzen face).inkW (boldH face) (S.tamzen face).ascent) rfl hwide
          (le_refl 8)
        simpa [hin] using hdots
    next hout => simp [hout]

/-! ## A font of blocks -/

/-- A glyph that fills its cell of `w` columns and `h` lines. -/
def block (w h : Nat) (dwidth : Int) : Glyph :=
  ⟨w, h, 0, 0, List.replicate h (List.replicate 4 15), dwidth⟩

/-- A font that has some codepoints as blocks. -/
def blocks (codes : List Nat) (hcodes : codes.Nodup) (w h : Nat) (dwidth : Int) : Font where
  ascent := h
  descent := 0
  glyphs := codes.map fun c => (c, block w h dwidth)
  nodup := by simpa [Function.comp_def] using hcodes

/-- Its advance is the advance of a block. -/
theorem advance_blocks {codes : List Nat} (hne : codes ≠ []) (w h : Nat) (dwidth : Int) :
    advance (codes.map fun c => (c, block w h dwidth)) = some dwidth := by
  have hdwidths : ((codes.map fun c => (c, block w h dwidth)).map fun g => g.2.dwidth)
      = codes.map fun _ => dwidth := List.map_map
  rw [advance, hdwidths]
  obtain ⟨d, hd⟩ : ∃ d, (codes.map fun _ => dwidth).argmax
      (fun d => (codes.map fun _ => dwidth).count d) = some d :=
    Option.ne_none_iff_exists'.mp fun h => hne (List.map_eq_nil_iff.mp (List.argmax_eq_none.mp h))
  obtain ⟨c, -, rfl⟩ := List.mem_map.mp (List.argmax_mem (Option.mem_def.mpr hd))
  exact hd

/-- Its ink is as wide as a block. -/
theorem inkWidth_blocks {codes : List Nat} (hne : codes ≠ []) (w h : Nat) (dwidth : Int) :
    inkWidth (codes.map fun c => (c, block w h dwidth)) = some (w : Int) := by
  rw [inkWidth, List.max?_eq_some_iff]
  obtain ⟨c, hc⟩ := List.exists_mem_of_ne_nil codes hne
  constructor
  · simp only [List.map_map, List.mem_map, Function.comp_apply]
    exact ⟨c, hc, by simp [Glyph.reach, block]⟩
  · simp [Glyph.reach, block]

/-- A list every element of which has a result. -/
theorem mapM_of_forall {α β : Type} {f : α → Option β} {g : α → β} {l : List α}
    (h : ∀ a ∈ l, f a = some (g a)) : l.mapM f = some (l.map g) := by
  induction l with
  | nil => rfl
  | cons a l ih =>
    rw [List.mapM_cons, h a List.mem_cons_self, ih fun b hb => h b (List.mem_cons_of_mem a hb)]
    rfl

/-- **`bdf2header.py` converts it**, when it has the codepoints of the header. -/
theorem bdf2header_blocks {codes : List Nat} (hcodes : codes.Nodup) (hall : ascii ++ extra ⊆ codes)
    {w : Nat} (hw : w ≤ 8) (h : Nat) (dwidth : Int) :
    ∃ header, bdf2header (blocks codes hcodes w h dwidth) = some header ∧ header.inkW = w ∧
      header.h = h := by
  have hne : codes ≠ [] := by
    rintro rfl
    exact absurd (hall (List.mem_append_left extra (by decide : 32 ∈ ascii))) List.not_mem_nil
  have hfits : (block w h dwidth).oversize dwidth = false := by
    simp [Glyph.oversize, Glyph.reach, block]
    omega
  have hlookup : ∀ c ∈ ascii ++ extra,
      (codes.map fun c => (c, block w h dwidth)).lookup c = some (block w h dwidth) := fun c hc =>
    List.lookup_graph (fun _ => block w h dwidth) (hall hc)
  have hkept : ((codes.map fun c => (c, block w h dwidth)).filter
      fun g => !g.2.oversize dwidth) = codes.map fun c => (c, block w h dwidth) := by
    rw [List.filter_eq_self, List.forall_mem_map]
    exact fun c _ => by rw [hfits, Bool.not_false]
  have hmissing : ((ascii ++ extra).filter fun c =>
      ((codes.map fun c => (c, block w h dwidth)).lookup c).isNone &&
        !(((codes.map fun c => (c, block w h dwidth)).filter
          fun g => g.2.oversize dwidth).map Prod.fst).contains c) = [] := by
    rw [List.filter_eq_nil_iff]
    intro c hc
    rw [hlookup c hc]
    simp
  have hdirect (render : Glyph → List Nat) :
      (ascii.mapM fun c => ((codes.map fun c => (c, block w h dwidth)).lookup c).map render)
        = some (ascii.map fun _ => render (block w h dwidth)) :=
    mapM_of_forall fun c hc => by rw [hlookup c (List.mem_append_left extra hc), Option.map_some]
  let render := fun g : Glyph => g.render 7 w (h + 0) h
  refine ⟨{ w := dwidth, inkW := w, h := h + 0
            direct := ascii.map fun _ => render (block w h dwidth)
            sorted := sheet render (codes.map fun c => (c, block w h dwidth)) extra },
    ?_, rfl, by simp⟩
  simp only [bdf2header, blocks, advance_blocks hne, inkWidth_blocks hne, hkept, hmissing,
    hdirect, Option.bind_eq_bind, Option.bind_some, ne_eq, not_true_eq_false, if_false]
  rw [if_neg (by omega)]

/-- **`bdf2big.py` converts it.** -/
theorem bdf2big_blocks {codes : List Nat} (hcodes : codes.Nodup) (hne : codes ≠ []) {w : Nat}
    (hw : w ≤ 16) (h : Nat) (dwidth : Int) :
    ∃ header, bdf2big (blocks codes hcodes w h dwidth) = some header ∧ header.inkW = w ∧
      header.h = h := by
  have hkept : ((codes.map fun c => (c, block w h dwidth)).filter fun g => g.2.dwidth == dwidth)
      = codes.map fun c => (c, block w h dwidth) := by
    rw [List.filter_eq_self, List.forall_mem_map]
    exact fun c _ => beq_self_eq_true dwidth
  refine ⟨{ w := dwidth, inkW := w, h := h + 0, direct := []
            sorted := sheet (fun g => g.render 15 w (h + 0) h)
              (codes.map fun c => (c, block w h dwidth)) (ascii ++ latin1) }, ?_, rfl, by simp⟩
  simp only [bdf2big, blocks, advance_blocks hne, inkWidth_blocks hne, hkept, Option.bind_eq_bind,
    Option.bind_some]
  rw [if_neg (by omega)]

/-- **`bdf2tamzen.py` converts it.** -/
theorem face_blocks {codes : List Nat} (hcodes : codes.Nodup) (hne : codes ≠ []) {w : Nat}
    (hw : w ≤ 8) (h : Nat) (dwidth : Int) :
    ∃ header, face (blocks codes hcodes w h dwidth) = some header ∧ header.h = h := by
  refine ⟨{ w := dwidth, inkW := w, h := h + 0, direct := []
            sorted := sheet (fun g => g.render 7 w (h + 0) h)
              (codes.map fun c => (c, block w h dwidth)) (ascii ++ latin1) }, ?_, by simp⟩
  simp only [face, blocks, advance_blocks hne, inkWidth_blocks hne, Option.bind_eq_bind,
    Option.bind_some]
  rw [if_neg (by omega)]

/-- The codepoints of the body face, once each. -/
theorem nodup_ascii_extra : (ascii ++ extra).Nodup := by
  rw [List.nodup_append']
  refine ⟨List.nodup_range', Finset.sort_nodup _ _, fun c hc hd => ?_⟩
  have hsearched := (searched_of_mem_extra hd).printable
  simp only [ascii, List.mem_range'_1] at hc
  omega

/-- Fonts of blocks, in the cells of the driver. -/
def blockSources : Sources where
  cozette := blocks (ascii ++ extra) nodup_ascii_extra fontInkW fontH fontW
  cozetteBig := blocks [0x41] (List.nodup_singleton _) bigFontInkW bigFontH bigFontW
  tamzen face := blocks [0x41] (List.nodup_singleton _) (boldW face) (boldH face) (boldW face)

/-- The headers of the fonts of blocks. -/
theorem exists_generated_blocks : ∃ T, Generated blockSources T := by
  obtain ⟨cozette, hcozette, hcell⟩ :=
    bdf2header_blocks nodup_ascii_extra (List.Subset.refl _) (w := fontInkW) (by decide) fontH fontW
  obtain ⟨big, hbig, hbigCell⟩ := bdf2big_blocks (List.nodup_singleton 0x41) (by simp)
    (w := bigFontInkW) (by decide) bigFontH bigFontW
  have hbold (f : BoldFace) := face_blocks (List.nodup_singleton 0x41) (by simp) (w := boldW f)
    (by cases f <;> decide) (boldH f) (boldW f)
  choose tamzen htamzen hheight using hbold
  exact ⟨⟨cozette, big, tamzen, []⟩, hcozette, hcell, hbig, hbigCell, htamzen, hheight⟩

/-- The first dot of a block. -/
theorem dots_of_fonts_blocks : ∃ T : FontTables, (0, 0) ∈ TextCall.big.dots T.fonts 0x41 := by
  obtain ⟨T, hT⟩ := exists_generated_blocks
  refine ⟨T, ?_⟩
  rw [(dots_of_fonts hT 0x41).2.2.1]
  refine ⟨by decide, block bigFontInkW bigFontH bigFontW, rfl, ?_⟩
  exact ⟨0, List.replicate 4 15, 0, by decide, by decide, by decide, by decide, by decide,
    by decide, by decide⟩

end Thicket.Lcd
