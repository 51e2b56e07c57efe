import Mathlib.Data.List.Basic
import Mathlib.Data.UInt

/-! # Codepoints and glyphs

`SharpLcd.cpp`: the UTF-8 walk `next_cp` and the glyph lookups. The generated font tables
(`CozetteFont.h`, `CozetteBig.h`, `TamzenFont.h`, `EmojiGlyphs.h`) are parameters: a binary search
in a sorted table is the lookup of a codepoint in it. -/

namespace Thicket.Lcd

/-! ## UTF-8 -/

/-- The byte a `const char*` points at: the string ends with a zero. -/
def peek (s : List UInt8) : UInt8 := s.headD 0

/-- The continuation bytes of `next_cp`. -/
def nextCpExtra : Nat → UInt32 → List UInt8 → UInt32 × List UInt8
  | 0, cp, s => (cp, s)
  | extra + 1, cp, s =>
      if peek s &&& 0xC0 ≠ 0x80 then (0xFFFD, s)
      else nextCpExtra extra ((cp <<< 6) ||| (peek s &&& 0x3F).toUInt32) s.tail

/-- **`next_cp`**: decode one codepoint, and the string after it. -/
def nextCp (s : List UInt8) : UInt32 × List UInt8 :=
  let c := peek s
  if c < 0x80 then (c.toUInt32, s.tail)
  else if c &&& 0xE0 = 0xC0 then nextCpExtra 1 (c &&& 0x1F).toUInt32 s.tail
  else if c &&& 0xF0 = 0xE0 then nextCpExtra 2 (c &&& 0x0F).toUInt32 s.tail
  else if c &&& 0xF8 = 0xF0 then nextCpExtra 3 (c &&& 0x07).toUInt32 s.tail
  else (0xFFFD, s.tail)

/-- Continuation bytes are taken off the string. -/
theorem length_nextCpExtra_le (extra : Nat) (cp : UInt32) (s : List UInt8) :
    (nextCpExtra extra cp s).2.length ≤ s.length := by
  induction extra generalizing cp s with
  | zero => exact le_rfl
  | succ extra ih =>
    rw [nextCpExtra]
    split
    · exact le_rfl
    · exact (ih _ _).trans (by simp)

/-- `next_cp` always advances. -/
theorem length_nextCp_lt {s : List UInt8} (hs : s ≠ []) : (nextCp s).2.length < s.length := by
  have htail : s.tail.length < s.length := by
    cases s with
    | nil => exact absurd rfl hs
    | cons c cs => simp
  unfold nextCp
  dsimp only
  split_ifs
  · exact htail
  · exact (length_nextCpExtra_le _ _ _).trans_lt htail
  · exact (length_nextCpExtra_le _ _ _).trans_lt htail
  · exact (length_nextCpExtra_le _ _ _).trans_lt htail
  · exact htail

/-- The codepoints of the first `fuel` steps of `while (*s) next_cp(s)`. -/
def codepointsUpTo : Nat → List UInt8 → List UInt32
  | 0, _ => []
  | fuel + 1, s =>
      if peek s = 0 then [] else (nextCp s).1 :: codepointsUpTo fuel (nextCp s).2

/-- The codepoints of a string, as `while (*s) next_cp(s)` reads them. -/
def codepoints (s : List UInt8) : List UInt32 := codepointsUpTo s.length s

/-- A string that does not start with its terminator has a byte. -/
theorem ne_nil_of_peek {s : List UInt8} (h : peek s ≠ 0) : s ≠ [] := by
  rintro rfl
  exact h rfl

/-- As many steps as bytes are enough. -/
theorem codepointsUpTo_eq {fuel : Nat} {s : List UInt8} (h : s.length ≤ fuel) :
    codepointsUpTo fuel s = codepoints s := by
  unfold codepoints
  induction hn : s.length using Nat.strong_induction_on generalizing s fuel with
  | _ n ih =>
    subst hn
    by_cases hz : peek s = 0
    · cases fuel <;> cases hs : s.length <;> simp [codepointsUpTo, hz]
    · have hlt := length_nextCp_lt (ne_nil_of_peek hz)
      obtain ⟨k, rfl⟩ : ∃ k, fuel = k + 1 := ⟨fuel - 1, by omega⟩
      obtain ⟨m, hm⟩ : ∃ m, s.length = m + 1 := ⟨s.length - 1, by omega⟩
      rw [hm, codepointsUpTo, codepointsUpTo, if_neg hz, if_neg hz,
        @ih _ hlt k _ (by omega) rfl, @ih _ hlt m _ (by omega) rfl]

/-- **The string loop**: stop at the terminator, otherwise decode and go on. -/
theorem codepoints_eq (s : List UInt8) : codepoints s
    = if peek s = 0 then [] else (nextCp s).1 :: codepoints (nextCp s).2 := by
  rw [← codepointsUpTo_eq (Nat.le_succ s.length), codepointsUpTo]
  split
  · rfl
  next hz => rw [codepointsUpTo_eq (length_nextCp_lt (ne_nil_of_peek hz)).le]

/-! ## Faces -/

/-- `FONT_W`: the advance of the body face. -/
def fontW : Nat := 6
/-- `FONT_INK_W`: box glyphs are a column wider than the advance. -/
def fontInkW : Nat := 7
/-- `FONT_H`. -/
def fontH : Nat := 13
/-- `BIGFONT_W`. -/
def bigFontW : Nat := 12
/-- `BIGFONT_INK_W`. -/
def bigFontInkW : Nat := 14
/-- `BIGFONT_H`. -/
def bigFontH : Nat := 26

/-- `SharpLcd::BoldFace`. -/
inductive BoldFace where
  /-- `BOLD_INLINE`, 6x12. -/
  | inline
  /-- `BOLD_H3`, 7x13. -/
  | h3
  /-- `BOLD_H2`, 8x16. -/
  | h2
  deriving DecidableEq, Repr

/-- `bold_w`: the advance. -/
def boldW : BoldFace → Nat
  | .inline => 6
  | .h3 => 7
  | .h2 => 8

/-- `bold_h`: the cell height. -/
def boldH : BoldFace → Nat
  | .inline => 12
  | .h3 => 13
  | .h2 => 16

/-- The generated tables. -/
structure Fonts where
  /-- `FONT[cp - FONT_FIRST]`. -/
  ascii : UInt32 → Nat → UInt8
  /-- `FONT_EXTRA`. -/
  extra : UInt32 → Option (Nat → UInt8)
  /-- `EMOJI`. -/
  emoji : UInt32 → Option (Nat → UInt8)
  /-- `BIGFONT`. -/
  big : UInt32 → Option (Nat → UInt16)
  /-- `BOLD6`, `BOLD7`, `BOLD8`. -/
  bold : BoldFace → UInt32 → Option (Nat → UInt8)

/-- The dots of one row of a braille cell: bits `l` and `r` of the codepoint. -/
def brailleRow (n l r : UInt8) : UInt8 :=
  (if n &&& l ≠ 0 then 0xC0 else 0) ||| (if n &&& r ≠ 0 then 0x18 else 0)

/-- `braille_for`: four rows of dots, two pixels high each. -/
def brailleFor (cp : UInt32) (row : Nat) : UInt8 :=
  let n := (cp - 0x2800).toUInt8
  match row with
  | 1 | 2 => brailleRow n 0x01 0x08
  | 4 | 5 => brailleRow n 0x02 0x10
  | 7 | 8 => brailleRow n 0x04 0x20
  | 10 | 11 => brailleRow n 0x40 0x80
  | _ => 0

/-- `glyph_for`: the rows of a codepoint in the body face. -/
def glyphFor (F : Fonts) (cp : UInt32) : Option (Nat → UInt8) :=
  if 32 ≤ cp ∧ cp ≤ 126 then some (F.ascii cp)
  else if 0x2800 ≤ cp ∧ cp ≤ 0x28FF then some (brailleFor cp)
  else if cp = 0x200D ∨ cp = 0xFE0E ∨ cp = 0xFE0F then some fun _ => 0
  else if cp ≤ 0xFFFF then F.extra cp
  else F.emoji cp

/-- `MISSING_BOX`. -/
def missingBox (row : Nat) : UInt8 :=
  match row with
  | 4 | 10 => 0x78
  | 5 | 6 | 7 | 8 | 9 => 0x48
  | _ => 0

end Thicket.Lcd
