import Mathlib.Data.List.Basic

/-! # What the scripts take from `str`

White space as `\s` and `strip` have it, the characters of a word, and the lines of a text. -/

namespace Thicket.Scripts

/-! ## Characters -/

/-- `\s`, and what `strip` takes off. -/
def isSpace (c : Char) : Bool :=
  (0x09 ≤ c.toNat && c.toNat ≤ 0x0D) || (0x1C ≤ c.toNat && c.toNat ≤ 0x20) || c.toNat == 0x85
    || c.toNat == 0xA0 || c.toNat == 0x1680 || (0x2000 ≤ c.toNat && c.toNat ≤ 0x200A)
    || c.toNat == 0x2028 || c.toNat == 0x2029 || c.toNat == 0x202F || c.toNat == 0x205F
    || c.toNat == 0x3000

/-- `str.lstrip`. -/
def lstrip (s : List Char) : List Char := s.dropWhile isSpace

/-- `str.strip`. -/
def strip (s : List Char) : List Char := (lstrip (lstrip s).reverse).reverse

/-- `\w`; beyond ASCII it is what `uni` says. -/
def isWord (uni : Char → Bool) (c : Char) : Bool :=
  c.isAlphanum || c == '_' || (128 ≤ c.toNat && uni c)

/-- `[^\n]`. -/
def notNewline (c : Char) : Bool := c != '\n'

/-- White space holds no other character. -/
theorem notMem_of_isSpace {x : Char} (hx : isSpace x = false) {s : List Char}
    (hs : ∀ c ∈ s, isSpace c = true) : x ∉ s := by
  intro hmem
  exact absurd (hs x hmem) (by rw [hx]; decide)

/-! ## Lines -/

/-- Where `splitlines` ends a line. -/
def isLineEnd (c : Char) : Bool :=
  (0x0A ≤ c.toNat && c.toNat ≤ 0x0D) || (0x1C ≤ c.toNat && c.toNat ≤ 0x1E) || c.toNat == 0x85
    || c.toNat == 0x2028 || c.toNat == 0x2029

/-- **`str.splitlines`**. -/
def splitlines : List Char → List (List Char)
  | [] => []
  | '\r' :: '\n' :: rest => [] :: splitlines rest
  | c :: rest =>
      if isLineEnd c then [] :: splitlines rest
      else match splitlines rest with
        | [] => [[c]]
        | line :: lines => (c :: line) :: lines

example : splitlines "a\r\nb\n\nc\n".toList = ["a", "b", "", "c"].map String.toList := by decide

/-- The lines of a text, numbered from 1. -/
def numbered (text : List Char) : List (List Char × Nat) := (splitlines text).zipIdx 1

end Thicket.Scripts
