import Mathlib.Data.UInt
import Thicket.Base.Scan

/-! # Runs of bytes

The first lines of `lib/MicronRender/src/MicronRender.cpp`: `seq_len`, `cells`, `is_space`, and the
walk of `emit_run` over the words of a run. A run is a pointer and a length; a sequence that the
length cuts short still reads its bytes. -/

namespace Thicket.Page

/-- A `const char*` and a length. -/
structure Span where
  /-- The byte at an index, also past the length. -/
  byte : Nat → UInt8
  /-- The length. -/
  len : Nat

namespace Span

/-- A string that ends with a zero. -/
def ofList (bytes : List UInt8) : Span := ⟨fun k => bytes.getD k 0, bytes.length⟩

/-- `t + off`, with a length of its own. -/
def sub (t : Span) (off len : Nat) : Span := ⟨fun k => t.byte (off + k), len⟩

end Span

/-- **`seq_len`**: bytes in one UTF-8 sequence; one byte where it is malformed. -/
def seqLen (c : UInt8) : Nat :=
  if c < 0x80 then 1
  else if c &&& 0xE0 = 0xC0 then 2
  else if c &&& 0xF0 = 0xE0 then 3
  else if c &&& 0xF8 = 0xF0 then 4
  else 1

/-- Malformed: one byte, never zero. -/
theorem seqLen_pos (c : UInt8) : 0 < seqLen c := by
  unfold seqLen
  split_ifs <;> decide

/-- `is_space`. -/
def isSpace (c : UInt8) : Bool := c == 0x20 || c == 0x09

/-- A space is one byte. -/
theorem seqLen_of_isSpace {c : UInt8} (h : isSpace c) : seqLen c = 1 := by
  have hc : c = 0x20 ∨ c = 0x09 := by simpa [isSpace] using h
  obtain rfl | rfl := hc <;> rfl

namespace Span

variable (t : Span)

/-- The length of the sequence at an index. -/
def seqLenAt (k : Nat) : Nat := seqLen (t.byte k)

/-- Every sequence has a byte. -/
theorem seqLenAt_pos (k : Nat) : 0 < t.seqLenAt k := seqLen_pos _

/-- The sequences of `[a, b)`: `for (k = a; k < b; k += seq_len(t[k]))`. -/
def steps (a b : Nat) : List Nat := positions t.seqLenAt a b

/-- `cells`: codepoints in a part of a run. -/
def cells (a b : Nat) : Nat := (t.steps a b).length

/-- The bytes `g` of the sequence at an index. -/
def glyph (k : Nat) : List UInt8 := (List.range (t.seqLenAt k)).map fun b => t.byte (k + b)

/-! ## Words -/

/-- A word with the spaces in front of it: `[i, sp)` are spaces and `[sp, w)` is the word. -/
structure Word where
  /-- Where the spaces begin. -/
  i : Nat
  /-- Where the word begins. -/
  sp : Nat
  /-- Where it ends. -/
  w : Nat
  deriving DecidableEq, Repr

/-- `while (sp < n && is_space(t[sp])) ++sp`. -/
def skipSpaces (i : Nat) : Nat := scan (fun k => isSpace (t.byte k)) (fun _ => 1) t.len i

/-- `while (w < n && !is_space(t[w])) w += seq_len(t[w])`. -/
def wordEnd (sp : Nat) : Nat := scan (fun k => !isSpace (t.byte k)) t.seqLenAt t.len sp

/-- The word at an index. -/
def wordAt (i : Nat) : Word := ⟨i, t.skipSpaces i, t.wordEnd (t.skipSpaces i)⟩

/-- The words from an index on, at most `fuel` of them. -/
def wordsUpTo : Nat → Nat → List Word
  | 0, _ => []
  | fuel + 1, i => if i < t.len then t.wordAt i :: wordsUpTo fuel (t.wordAt i).w else []

/-- The words of a run, in the order `emit_run` takes them. -/
def words : List Word := t.wordsUpTo t.len 0

/-- Skipping spaces strides over sequences. -/
theorem strides_skipSpaces (i : Nat) : Strides t.seqLenAt t.len i (t.skipSpaces i) :=
  strides_scan_one (fun _ h => seqLen_of_isSpace h) i

/-- A word ends a number of sequences after it begins. -/
theorem strides_wordAt (i : Nat) : Strides t.seqLenAt t.len i (t.wordAt i).w :=
  (t.strides_skipSpaces i).trans (strides_scan _)

/-- The spaces are in front of the word. -/
theorem wordAt_le (i : Nat) : i ≤ (t.wordAt i).sp ∧ (t.wordAt i).sp ≤ (t.wordAt i).w :=
  ⟨le_scan _, le_scan _⟩

/-- **A word is not empty**, spaces included. -/
theorem lt_wordAt_w {i : Nat} (h : i < t.len) : i < (t.wordAt i).w := by
  by_cases hs : isSpace (t.byte i)
  · have hsp : i + 1 ≤ t.skipSpaces i := by
      rw [skipSpaces, scan_eq (fun _ => Nat.one_pos), if_pos ⟨h, hs⟩]
      exact le_scan _
    exact Nat.lt_of_lt_of_le hsp (t.wordAt_le i).2
  · have hsp : t.skipSpaces i = i := by
      rw [skipSpaces, scan_eq (fun _ => Nat.one_pos), if_neg fun hc => hs hc.2]
    have hend : i + t.seqLenAt i ≤ t.wordEnd i := by
      rw [wordEnd, scan_eq t.seqLenAt_pos, if_pos ⟨h, by simp [hs]⟩]
      exact le_scan _
    have hpos := t.seqLenAt_pos i
    show i < t.wordEnd (t.skipSpaces i)
    rw [hsp]
    omega

/-- Spaces without a word end the run. -/
theorem len_le_of_no_word {i : Nat} (h : ¬ (t.wordAt i).sp < (t.wordAt i).w) :
    t.len ≤ (t.wordAt i).w := by
  by_contra hlt
  have hsp : t.skipSpaces i < t.len := by
    have hle := (t.wordAt_le i).2
    exact Nat.lt_of_le_of_lt hle (Nat.not_le.mp hlt)
  have hno : ¬ isSpace (t.byte (t.skipSpaces i)) = true := not_of_scan_one_lt hsp
  refine h ?_
  show t.skipSpaces i < t.wordEnd (t.skipSpaces i)
  rw [wordEnd, scan_eq t.seqLenAt_pos, if_pos ⟨hsp, by simp [hno]⟩]
  exact Nat.lt_of_lt_of_le (Nat.lt_add_of_pos_right (t.seqLenAt_pos _)) (le_scan _)

/-- The cells from an index on are those of its word and those after it. -/
theorem steps_wordAt (i : Nat) :
    t.steps i t.len = t.steps i (t.wordAt i).w ++ t.steps (t.wordAt i).w t.len :=
  positions_split t.seqLenAt_pos (t.strides_wordAt i)

/-- **The words cover the run**, in order. -/
theorem flatMap_wordsUpTo {fuel i : Nat} (h : t.len - i ≤ fuel) :
    (t.wordsUpTo fuel i).flatMap (fun w => t.steps w.i w.w) = t.steps i t.len := by
  induction fuel generalizing i with
  | zero => exact (positions_of_le (by omega)).symm
  | succ fuel ih =>
    rw [wordsUpTo]
    split
    next hi =>
      have hlt := t.lt_wordAt_w hi
      rw [List.flatMap_cons, ih (by omega), t.steps_wordAt i]
      rfl
    next hi => exact (positions_of_le (by omega)).symm

/-- The cells of the words are the cells of the run. -/
theorem flatMap_words : t.words.flatMap (fun w => t.steps w.i w.w) = t.steps 0 t.len :=
  t.flatMap_wordsUpTo (by omega)

/-- Every word is the word at an index of the run. -/
theorem eq_wordAt_of_mem {w : Word} {fuel i : Nat} (h : w ∈ t.wordsUpTo fuel i) :
    w = t.wordAt w.i ∧ w.i < t.len := by
  induction fuel generalizing i with
  | zero => cases h
  | succ fuel ih =>
    rw [wordsUpTo] at h
    split at h
    next hi =>
      obtain rfl | hmem := List.mem_cons.mp h
      · exact ⟨rfl, hi⟩
      · exact ih hmem
    next => cases h

/-- So is every word of a run. -/
theorem eq_wordAt_of_mem_words {w : Word} (h : w ∈ t.words) : w = t.wordAt w.i ∧ w.i < t.len :=
  t.eq_wordAt_of_mem h

/-- No cell of a word begins with a space. -/
theorem not_isSpace_of_mem_steps {i k : Nat}
    (h : k ∈ t.steps (t.wordAt i).sp (t.wordAt i).w) : isSpace (t.byte k) = false := by
  simpa using of_mem_positions_scan t.seqLenAt_pos h

/-- The spaces in front of a word are a cell each. -/
theorem length_steps_skipSpaces (i : Nat) :
    (t.steps i (t.skipSpaces i)).length = t.skipSpaces i - i :=
  length_positions_scan_one t.seqLenAt_pos (fun _ h => seqLen_of_isSpace h) i

/-- The cells of a word come after the spaces in front of it. -/
theorem steps_word (i : Nat) : t.steps i (t.wordAt i).w
    = t.steps i (t.wordAt i).sp ++ t.steps (t.wordAt i).sp (t.wordAt i).w :=
  positions_cut t.seqLenAt_pos (t.strides_skipSpaces i) (t.wordAt_le i).2

/-- The spaces in front of a word are spaces. -/
theorem isSpace_of_mem_steps {i k : Nat} (h : k ∈ t.steps i (t.wordAt i).sp) :
    isSpace (t.byte k) = true := by
  obtain ⟨hle, hlt⟩ := mem_positions h
  exact of_lt_scan_one hle hlt

/-- **The cells of a word with the spaces in front of it.** -/
theorem cells_wordAt (i : Nat) : (t.steps i (t.wordAt i).w).length
    = ((t.wordAt i).sp - i) + t.cells (t.wordAt i).sp (t.wordAt i).w := by
  rw [steps_word, List.length_append]
  exact congrArg (· + _) (t.length_steps_skipSpaces i)

end Span

end Thicket.Page
