import Thicket.Base.Regex
import Thicket.Scripts.Str

/-! # The debug-port gate

`scripts/check_approtect.py`: comments are blanked by two passes, first what stands between `/*` and
`*/`, then the rest of a line behind `//` or `;`, and six patterns are looked for in what is left.
A text is what `read` returns, so its lines end with a newline each. -/

namespace Thicket.Scripts

open Thicket.Regex

/-! ## What is forbidden -/

/-- The entries of `FORBIDDEN`. -/
inductive Forbidden where
  /-- `NRF_APPROTECT`. -/
  | peripheral
  /-- `APPROTECT->DISABLE`. -/
  | write
  /-- `APPROTECT_DISABLE`. -/
  | symbol
  /-- `SwDisable`. -/
  | value
  /-- `ENABLE_APPROTECT`. -/
  | flag
  /-- `APPROTECT =`. -/
  | assignment
  deriving DecidableEq

/-- A word of its own: `\b..\b`. -/
def wordPattern (uni : Char → Bool) (w : List Char) : Pattern Char :=
  .seq (.edge (isWord uni)) (.seq (.lit w) (.edge (isWord uni)))

namespace Forbidden

/-- The pattern of an entry. -/
def pattern (uni : Char → Bool) : Forbidden → Pattern Char
  | .peripheral => wordPattern uni "NRF_APPROTECT".toList
  | .write =>
      .seq (.lit "APPROTECT".toList) (.seq (.many isSpace) (.seq (.lit "->".toList)
        (.seq (.many isSpace) (.lit "DISABLE".toList))))
  | .symbol => wordPattern uni "APPROTECT_DISABLE".toList
  | .value => wordPattern uni "SwDisable".toList
  | .flag => wordPattern uni "ENABLE_APPROTECT".toList
  | .assignment =>
      .seq (.lit "APPROTECT".toList) (.seq (.many isSpace) (.seq (.lit "=".toList)
        (.notAhead (· == '='))))

/-- Why it is forbidden. -/
def why : Forbidden → String
  | .peripheral => "the APPROTECT peripheral (software disable)"
  | .write => "a write to APPROTECT.DISABLE"
  | .symbol => "the APPROTECT_DISABLE symbol"
  | .value => "the SwDisable value"
  | .flag => "the MDK ENABLE_APPROTECT flag"
  | .assignment => "an assignment to UICR.APPROTECT"

/-- `FORBIDDEN`. -/
def all : List Forbidden := [.peripheral, .write, .symbol, .value, .flag, .assignment]

/-- The list is complete. -/
theorem mem_all (k : Forbidden) : k ∈ all := by cases k <;> decide

/-- Each entry has a reason of its own. -/
theorem why_injective {k k' : Forbidden} (h : k.why = k'.why) : k = k' := by
  revert h
  cases k <;> cases k' <;> decide

end Forbidden

/-! ## Comments -/

/-- `_BLOCK`. -/
def blockPattern : Pattern Char :=
  .seq (.lit "/*".toList) (.seq (.few fun _ => true) (.lit "*/".toList))

/-- `_LINE`. -/
def linePattern : Pattern Char :=
  .alt (.seq (.lit "//".toList) (.many notNewline)) (.seq (.lit ";".toList) (.many notNewline))

/-- One character of `blank`. -/
def blankChar (c : Char) : Char := if notNewline c then ' ' else c

/-- `blank`. -/
def blank (m : List Char) : List Char := m.map blankChar

/-- **`strip_comments`**. -/
def stripComments (text : List Char) : List Char :=
  linePattern.sub blank [] 0 (blockPattern.sub blank [] 0 text)

/-! ## The scan -/

/-- An entry of `failures`. -/
structure Failure where
  /-- The file. -/
  path : String
  /-- The line, from 1. -/
  line : Nat
  /-- Why. -/
  why : String
  /-- The token. -/
  token : List Char

variable (uni : Char → Bool)

/-- **What `scan` appends for the text of a file.** -/
def scanText (path : String) (text : List Char) : List Failure :=
  Forbidden.all.flatMap fun k => ((k.pattern uni).finditer (stripComments text)).map fun m =>
    { path := path, line := m.left.count '\n' + 1, why := k.why, token := strip m.text }

/-- `SCAN_EXT`. -/
def scanExt : List (List Char) :=
  [".c", ".cpp", ".h", ".hpp", ".S", ".s", ".ini"].map String.toList

/-- A file under the root of a scan. -/
structure SourceFile where
  /-- The directories on the way to it. -/
  dirs : List String
  /-- Its name. -/
  name : List Char
  /-- `os.path.join(dirpath, fn)`. -/
  path : String
  /-- What is read, unless it cannot be opened. -/
  text : Option (List Char)

/-- The file is on the walk, and is one to look at. -/
def SourceFile.scanned (f : SourceFile) : Bool :=
  f.dirs.all (fun d => d != ".git" && d != ".pio" && d != "test")
    && scanExt.any fun ext => ext.isSuffixOf f.name

/-- **`scan`**, over the files in the order of the walk. -/
def scan (files : List SourceFile) : List Failure :=
  files.flatMap fun f =>
    if f.scanned then
      match f.text with
      | none => []
      | some text => scanText uni f.path text
    else []

variable {uni}

/-! ## Matches -/

/-- A word spans itself. -/
theorem spans_wordPattern {w l m r : List Char} (h : (wordPattern uni w).Spans l m r) :
    m = w := by
  obtain ⟨_, _, rfl, ⟨rfl, -⟩, _, _, rfl, hw, rfl, -⟩ := h
  rw [Pattern.spans_lit.mp hw, List.nil_append, List.append_nil]

/-- What `APPROTECT->DISABLE` spans. -/
theorem spans_write {l m r : List Char} (h : (Forbidden.write.pattern uni).Spans l m r) :
    ∃ s t, (∀ c ∈ s, isSpace c = true) ∧ (∀ c ∈ t, isSpace c = true) ∧
      m = "APPROTECT".toList ++ (s ++ ("->".toList ++ (t ++ "DISABLE".toList))) := by
  obtain ⟨a, _, rfl, ha, s, _, rfl, hs, b, _, rfl, hb, t, d, rfl, ht, hd⟩ := h
  rw [Pattern.spans_lit.mp ha, Pattern.spans_lit.mp hb, Pattern.spans_lit.mp hd]
  exact ⟨s, t, hs, ht, rfl⟩

/-- What `APPROTECT =` spans. -/
theorem spans_assignment {l m r : List Char}
    (h : (Forbidden.assignment.pattern uni).Spans l m r) :
    ∃ s, (∀ c ∈ s, isSpace c = true) ∧ m = "APPROTECT".toList ++ (s ++ "=".toList) := by
  obtain ⟨a, _, rfl, ha, s, _, rfl, hs, b, _, rfl, hb, rfl, -⟩ := h
  rw [Pattern.spans_lit.mp ha, Pattern.spans_lit.mp hb]
  exact ⟨s, hs, by rw [List.append_nil]⟩

/-- What a pattern looks for next to a token. -/
theorem Forbidden.looks_subset (k : Forbidden) :
    (k.pattern uni).looks ⊆ [isWord uni, fun c => c == '='] := by
  cases k <;>
    simp [Forbidden.pattern, wordPattern, Pattern.looks, Pattern.looks_lit]

/-- Every `x` of a text has another character than `y` behind it. -/
def Clear (x y : Char) : List Char → Prop
  | [] => True
  | a :: r => (a = x → ∃ b r', r = b :: r' ∧ b ≠ y) ∧ Clear x y r

instance instDecidableClear (x y : Char) : ∀ m, Decidable (Clear x y m)
  | [] => isTrue trivial
  | _ :: r =>
      haveI := instDecidableClear x y r
      haveI : Decidable (∃ b r', r = b :: r' ∧ b ≠ y) :=
        match r with
        | [] => isFalse fun ⟨_, _, h, _⟩ => nomatch h
        | b :: r' =>
            if hb : b ≠ y then isTrue ⟨b, r', rfl, hb⟩
            else isFalse fun ⟨_, _, h, hne⟩ => hb ((List.cons.inj h).1 ▸ hne)
      inferInstanceAs (Decidable (_ ∧ _))

/-- Other characters in front. -/
theorem clear_append {x y : Char} {s r : List Char} (hs : x ∉ s) (hr : Clear x y r) :
    Clear x y (s ++ r) := by
  induction s with
  | nil => exact hr
  | cons c s ih =>
    obtain ⟨hne, hs⟩ := List.ne_and_not_mem_of_not_mem_cons hs
    exact ⟨fun hc => absurd hc.symm hne, ih hs⟩

/-- A tail is clear. -/
theorem Clear.of_append {x y : Char} {s r : List Char} (h : Clear x y (s ++ r)) : Clear x y r := by
  induction s with
  | nil => exact h
  | cons c s ih => exact ih h.2

namespace Forbidden

/-- The characters a token begins with. -/
def begins : Forbidden → Char × Char
  | .peripheral => ('N', 'R')
  | .write | .symbol | .assignment => ('A', 'P')
  | .value => ('S', 'w')
  | .flag => ('E', 'N')

/-- **A token begins with two characters** that do not come again in it. -/
theorem shape {k : Forbidden} {l m r : List Char} (h : (k.pattern uni).Spans l m r) :
    ∃ m', m = k.begins.1 :: k.begins.2 :: m' ∧ Clear k.begins.1 k.begins.2 (k.begins.2 :: m') := by
  cases k with
  | peripheral | symbol | value | flag =>
    rw [spans_wordPattern h]
    exact ⟨_, rfl, by decide⟩
  | write =>
    obtain ⟨s, t, hs, ht, rfl⟩ := spans_write h
    refine ⟨_, rfl, ?_⟩
    -- the `A` of `DISABLE` has a `B` behind it, and nothing between the words is an `A`
    have hend : Clear 'A' 'P' "DISABLE".toList := by decide
    have hspaces := clear_append (notMem_of_isSpace (by decide) ht) hend
    have harrow : Clear 'A' 'P' ("->".toList ++ (t ++ "DISABLE".toList)) :=
      clear_append (by decide) hspaces
    exact clear_append (s := "PPROTECT".toList) (by decide)
      (clear_append (notMem_of_isSpace (by decide) hs) harrow)
  | assignment =>
    obtain ⟨s, hs, rfl⟩ := spans_assignment h
    refine ⟨_, rfl, ?_⟩
    exact clear_append (s := "PPROTECT".toList) (by decide)
      (clear_append (notMem_of_isSpace (by decide) hs) (by decide))

/-- A token ends with no space. -/
theorem last {k : Forbidden} {l m r : List Char} (h : (k.pattern uni).Spans l m r) :
    ∃ m' c, m = m' ++ [c] ∧ isSpace c = false := by
  cases k with
  | peripheral | symbol | value | flag =>
    rw [spans_wordPattern h]
    exact ⟨_, _, (List.dropLast_append_getLast (by decide)).symm, by decide⟩
  | write =>
    obtain ⟨s, t, -, -, rfl⟩ := spans_write h
    refine ⟨"APPROTECT".toList ++ (s ++ ("->".toList ++ (t ++ "DISABL".toList))), 'E', ?_,
      by decide⟩
    simp only [List.append_assoc]
    rfl
  | assignment =>
    obtain ⟨s, -, rfl⟩ := spans_assignment h
    exact ⟨"APPROTECT".toList ++ s, '=', by rw [List.append_assoc]; rfl, by decide⟩

/-- Nor does it begin with one. -/
theorem isSpace_begins (k : Forbidden) : isSpace k.begins.1 = false := by cases k <;> decide

/-- No token is empty. -/
theorem solid (k : Forbidden) : (k.pattern uni).Solid := by
  rintro l m r h rfl
  obtain ⟨m', hm, -⟩ := shape h
  cases hm

/-- **No token begins inside another of its kind.** -/
theorem apart (k : Forbidden) : (k.pattern uni).Apart := by
  intro l m₁ m₂ r m r' h h₁ h₂ heq h'
  obtain ⟨a, x, rfl⟩ := List.exists_cons_of_ne_nil h₁
  obtain ⟨b, y, rfl⟩ := List.exists_cons_of_ne_nil h₂
  -- the inner token would begin with the same two characters, which do not come again
  obtain ⟨m', hm, hclear⟩ := shape h
  obtain ⟨m'', rfl, -⟩ := shape h'
  obtain ⟨-, hx⟩ := List.cons.inj hm
  rw [← hx] at hclear
  obtain ⟨hb, hrest⟩ := List.cons.inj heq
  obtain ⟨c, y', rfl, hc⟩ := hclear.of_append.1 hb
  exact hc (List.cons.inj hrest).1

end Forbidden

end Thicket.Scripts
