import Thicket.Base.LastEntry
import Thicket.Base.Regex
import Thicket.Scripts.Str

/-! # The pin gate

`scripts/check_pins.py`: the git dependencies of `platformio.ini` must carry a commit each, and the
other build projects must name the same commits. A file is read into a map from the libraries to
where they come from, and only the maps are compared. -/

namespace Thicket.Scripts.CheckPins

open Thicket.Regex Thicket.Regex.Pattern Thicket.LastEntry

/-! ## Dependencies -/

/-- `[A-Za-z0-9_.-]`. -/
def isNameChar (c : Char) : Bool := c.isAlphanum || c == '_' || c == '.' || c == '-'

/-- `[^\s"']`. -/
def isRefChar (c : Char) : Bool := !(isSpace c || c.toNat == 0x22 || c.toNat == 0x27)

/-- `DEP`: its groups are the owner, the library and the ref. -/
def dep : Pattern Char :=
  .seq (.lit "https://github.com/".toList) (.seq (.group 1 (.plus isNameChar))
    (.seq (.lit "/".toList) (.seq (.group 2 (.plus isNameChar)) (.seq (.lit ".git".toList)
      (.opt (.seq (.lit "#".toList) (.group 3 (.plus isRefChar))))))))

/-- `[0-9a-f]`. -/
def isHex (c : Char) : Bool := ('0' ≤ c && c ≤ '9') || ('a' ≤ c && c ≤ 'f')

/-- `SHA40.match`; its `$` also matches in front of a newline that ends the text. -/
def sha40 (ref : List Char) : Bool :=
  (ref.take 40).length == 40 && (ref.take 40).all isHex
    && (ref.drop 40 == [] || ref.drop 40 == ['\n'])

/-- What is kept of a dependency. -/
structure Pin where
  /-- Whose it is. -/
  owner : List Char
  /-- The commit, if there is a `#`. -/
  ref : Option (List Char)
  /-- The line. -/
  line : Nat
  deriving DecidableEq

/-- A dependency, under its library. -/
def pinAt (n : Nat) (m : Hit Char) : List Char × Pin :=
  ((m.group? 2).getD [], { owner := (m.group? 1).getD [], ref := m.group? 3, line := n })

/-- The line is a comment. -/
def isComment (line : List Char) : Bool := [';'].isPrefixOf (lstrip line)

/-- A map from the libraries. -/
abbrev Pins := AList fun _ : List Char => Pin

/-- **`deps_in`**, on what is read from a file. -/
def depsIn (text : List Char) : Pins :=
  (numbered text).foldl (fun out (line, n) =>
    if isComment line then out
    else match dep.search line with
      | none => out
      | some m => out.insert (pinAt n m).1 (pinAt n m).2) ∅

/-- The order of the libraries, by their codepoints. -/
def before (a b : List Char) : Bool := !List.lex b a fun x y => decide (x.toNat < y.toNat)

/-- `sorted(.items())`. -/
def sorted (pins : Pins) : List (List Char × Pin) := items before pins

/-! ## The check -/

/-- A `platformio.ini` other than the root. -/
structure Ini where
  /-- Where it is in its tree. -/
  path : String
  /-- What is read. -/
  text : List Char

/-- What the gate finds on the disk. -/
structure Checkout where
  /-- `ROOT_INI`. -/
  rootIni : String
  /-- What is in it, if it is a file. -/
  root : Option (List Char)
  /-- The `platformio.ini` of `test_interop/*` and of `desktop` that are files, sorted. -/
  scenarios : List Ini
  /-- The `test_interop/*/platformio.ini` in each `.pio/libdeps/*/microReticulum`, sorted. -/
  libdeps : List (List Ini)

/-- A run. -/
structure Outcome where
  /-- What is written to `stderr`. -/
  err : List String
  /-- What is written to `stdout`. -/
  out : List String
  /-- The exit code. -/
  code : Nat

/-- `fail`. -/
def fail (msg : String) : String := "[check_pins] FAIL " ++ msg

/-- `cannot_run`. -/
def cannotRun (msg : String) : Outcome :=
  { err := ["[check_pins] COULD NOT RUN: " ++ msg,
      "[check_pins] This is not a pass. The pins are unverified."]
    out := []
    code := 2 }

/-- **R1 and R4**, for a dependency of the root. -/
def rootFailure (lib : List Char) (p : Pin) : Option String :=
  let place := "platformio.ini:" ++ toString p.line ++ " " ++ .ofList p.owner ++ "/" ++ .ofList lib
  match p.ref with
  -- R4
  | none =>
      some (fail (place ++ " has no #ref, so it resolves to whatever the default branch happens "
        ++ "to be. Pin a 40-hex SHA."))
  | some ref =>
      -- R1
      if sha40 ref then none
      else
        some (fail (place ++ " is pinned to '" ++ .ofList ref ++ "', which is not a 40-hex SHA. "
          ++ "Branches and tags move; the build stops being reproducible and the recorded flash "
          ++ "figures stop meaning anything."))

/-- `{owner}@{ref}`, with a text for no ref. -/
def source (p : Pin) (none : String) : String :=
  .ofList p.owner ++ "@" ++ (p.ref.map String.ofList).getD none

/-- What R2 says. -/
def scenarioMessage (ini : Ini) (lib : List Char) (p r : Pin) : String :=
  ini.path ++ ":" ++ toString p.line ++ " " ++ .ofList lib ++ " is " ++ source p "<no ref>"
    ++ " but the root says " ++ source r "None"
    ++ ". This scenario is testing a stack we do not ship."

/-- What R3 says. -/
def innerMessage (ini : Ini) (lib : List Char) (p r : Pin) : String :=
  "inside pinned microReticulum: " ++ ini.path ++ ":" ++ toString p.line ++ " " ++ .ofList lib
    ++ " is " ++ source p "<no ref>" ++ " but the root says " ++ source r "None"
    ++ ". The interop job builds these, and it will fail to compile if our tree needs a fork API."

/-- **R2 and R3**, for a dependency of another file. -/
def disagreement (message : List Char → Pin → Pin → String) (root : Pins) (lib : List Char)
    (p : Pin) : Option String :=
  match root.lookup lib with
  | none => none
  | some r => if (p.owner, p.ref) ≠ (r.owner, r.ref) then some (fail (message lib p r)) else none

/-- What a file pins otherwise than the root. -/
def disagreements (message : Ini → List Char → Pin → Pin → String) (root : Pins) (ini : Ini) :
    List String :=
  (sorted (depsIn ini.text)).filterMap fun (lib, p) => disagreement (message ini) root lib p

/-- All that is wrong. -/
def failures (c : Checkout) (root : Pins) : List String :=
  -- R1 and R4, then R2, then R3
  (sorted root).filterMap (fun (lib, p) => rootFailure lib p)
    ++ c.scenarios.flatMap (disagreements scenarioMessage root)
    -- the first tree that is fetched stands for all of them
    ++ (c.libdeps.head?.getD []).flatMap (disagreements innerMessage root)

/-- What is written where no tree is fetched. -/
def unchecked : String :=
  "[check_pins] note: microReticulum is not fetched into .pio/libdeps, so rule 3 (pins inside the "
    ++ "pinned dependency) was not checked. Run `pio pkg install -e wiscore_rak4631` first for "
    ++ "full coverage."

/-- **`main`**. -/
def main (c : Checkout) : Outcome :=
  match c.root with
  -- a gate that could not run must not read as one that passed
  | none => cannotRun ("no platformio.ini at " ++ c.rootIni)
  | some text =>
      let root := depsIn text
      if root.entries = [] then cannotRun ("no git dependencies found in " ++ c.rootIni)
      else
        let failed := failures c root
        let note := if c.libdeps = [] then [unchecked] else []
        if failed ≠ [] then
          { err := failed ++ note ++ ["\n[check_pins] " ++ toString failed.length
              ++ " pin problem(s). Every build path has to resolve the same commit, or CI tests a "
              ++ "stack nobody ships."]
            out := []
            code := 1 }
        else
          let scope := "root + scenarios"
            ++ if c.libdeps = [] then "" else " + inside the dependency"
          { err := note
            out := ["[check_pins] OK, " ++ toString root.entries.length ++ " dependencies agree "
              ++ "across " ++ scope ++ "."]
            code := 0 }

end Thicket.Scripts.CheckPins
