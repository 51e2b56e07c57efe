import Thicket.Base.Substitute
import Thicket.Base.Runs

/-! # Patching the dependencies

`scripts/patch_deps.py`. Before every build it rewrites some files of the installed libraries in
place. A patch leaves its stamp in the text and is skipped where the stamp is; a text that is not
as expected stops the build. -/

namespace Thicket.Scripts.PatchDeps

open Substitute

/-- `str`. -/
abbrev Str : Type := List Char

/-! ## Patches -/

/-- `MARKER`. -/
def marker : Str := "patched-by-thicket".toList

/-- A pair of `replacements`. -/
structure Replacement where
  /-- The text that must be there. -/
  old : Str
  /-- What every occurrence becomes. -/
  new : Str
  /-- The text that must be there is not empty. -/
  old_ne_nil : old ≠ []

/-- The arguments of a call of `patch`. -/
structure Patch where
  /-- `lib`. -/
  lib : Str
  /-- `relpath`. -/
  relpath : Str
  /-- `patch_id`. -/
  patchId : Str
  /-- `replacements`. -/
  replacements : List Replacement
  /-- `why`. -/
  why : Str
  /-- `insert_at_top`. -/
  insertAtTop : Option Str := none

/-- `stamp`. -/
def Patch.stamp (p : Patch) : Str := marker ++ ':' :: p.patchId

/-- The loop over `replacements`; the text that is missing when one is. -/
def substitute (replacements : List Replacement) (text : Str) : Except Str Str :=
  replacements.foldlM (fun text r =>
    if r.old <:+: text then .ok (replace r.old r.new text) else .error r.old) text

/-- What a patch makes of a text, or the text it expected. -/
def Patch.apply (p : Patch) (text : Str) : Except Str Str := do
  let replaced ← substitute p.replacements text
  let patched := p.insertAtTop.getD [] ++ replaced
  if patched = text then .error "<any change>".toList else .ok patched

/-! ## Files -/

/-- A path under `LIBDEPS`. -/
structure Path where
  /-- The directory of an installed copy of a library. -/
  dir : Str
  /-- The path within it. -/
  relpath : Str
  deriving DecidableEq

/-- The installed files. -/
abbrev Tree : Type := Path → Option Str

/-- The path is one that `glob` finds for the patch. -/
def Patch.Matches (p : Patch) (q : Path) : Prop := p.lib <+: q.dir ∧ q.relpath = p.relpath

instance (p : Patch) (q : Path) : Decidable (p.Matches q) := inferInstanceAs (Decidable (_ ∧ _))

/-- What `fail` says. -/
structure Failure where
  /-- `path`; none for a pattern that no file matches. -/
  path : Option Path
  /-- `expected`. -/
  expected : Str
  /-- `why`. -/
  why : Str

/-- How far the script is. -/
structure Report where
  /-- The files. -/
  tree : Tree
  /-- `applied`. -/
  applied : List (Path × Str) := []
  /-- `skipped`. -/
  skipped : List (Path × Str) := []

/-- **`targets`**; `paths` are all that there may be, in their order. -/
def targets (paths : List Path) (tree : Tree) (p : Patch) : List Path :=
  paths.filter fun q => (tree q).isSome && decide (p.Matches q)

/-- The loop of `patch` over the copies of a file. -/
def patchTargets (p : Patch) : List Path → Report → Report × Option Failure
  | [], r => (r, none)
  | q :: qs, r =>
      let text := (r.tree q).getD []
      if p.stamp <:+: text then
        patchTargets p qs { r with skipped := r.skipped ++ [(q, p.patchId)] }
      else
        match p.apply text with
        | .error expected => (r, some ⟨some q, expected, p.why⟩)
        | .ok patched =>
            patchTargets p qs { r with
              tree := Function.update r.tree q (some patched)
              applied := r.applied ++ [(q, p.patchId)] }

/-- **`patch`**. -/
def patch (paths : List Path) (p : Patch) (r : Report) : Report × Option Failure :=
  match targets paths r.tree p with
  | [] => (r, some ⟨none, "<file exists>".toList,
      "dependency not installed, or its layout changed".toList⟩)
  | q :: qs => patchTargets p (q :: qs) r

/-- One patch after the other, up to the first that fails. -/
def patchAll (paths : List Path) : List Patch → Report → Report × Option Failure
  | [], r => (r, none)
  | p :: ps, r =>
      match patch paths p r with
      | (r', some failure) => (r', some failure)
      | (r', none) => patchAll paths ps r'

/-- **The script**, with these patches. -/
def build (paths : List Path) (ps : List Patch) (tree : Tree) : Report × Option Failure :=
  patchAll paths ps { tree := tree }

/-! ## The patches of the repository -/

/-- Lines of text, each with its end. -/
def unlines (ls : List Str) : Str := ls.flatMap fun l => l ++ ['\n']

/-- The lines of `ARDUINO_MACRO_PROLOGUE`. -/
def arduinoMacroLines : List Str :=
  ("// ".toList ++ marker ++ ":arduino-macros, Arduino.h defines abs()/round()".toList) ::
  ["// as function-like macros. Any libstdc++ header named afterwards that mentions",
    "// std::abs or std::round (<chrono>, reached via <mutex> / MsgPack /",
    "// ArduinoJson) then fails to parse. Pull Arduino.h in first and undefine both",
    "// for this translation unit.",
    "#ifdef ARDUINO",
    "#include <Arduino.h>",
    "#undef abs",
    "#undef round",
    "#endif"].map String.toList

/-- `ARDUINO_MACRO_PROLOGUE`. -/
def arduinoMacroPrologue : Str := unlines arduinoMacroLines

/-- The lines of `MUTEX_SHIM`. -/
def mutexShimLines : List Str :=
  "#include <mutex>".toList :: [] ::
  ("// ".toList ++ marker ++ ":no-gthreads, this toolchain (arm-none-eabi GCC 7.2.1".toList) ::
  ["// as shipped by platform nordicnrf52) is built without gthreads, so <mutex>",
    "// declares std::lock_guard but not std::mutex. LXStamper's async worker is",
    "// ESP32-only (#ifdef ESP_PLATFORM around xTaskCreatePinnedToCore; the stamper",
    "// is synchronous everywhere else), so nothing races and a no-op lock is",
    "// behaviourally correct. lock_guard templates over any BasicLockable, so this",
    "// needs no additions to namespace std.",
    "#if defined(_GLIBCXX_HAS_GTHREADS)",
    "using ThicketStampMutex = std::mutex;",
    "#else",
    "struct ThicketStampMutex \x7b",
    "\tvoid lock() \x7b\x7d",
    "\tvoid unlock() \x7b\x7d",
    "\tbool try_lock() \x7b return true; \x7d",
    "\x7d;",
    "#endif"].map String.toList

/-- `MUTEX_SHIM`. -/
def mutexShim : Str := unlines mutexShimLines

/-- The prologue, for one of the files of `src/LXMF`. -/
def arduinoMacros (file : String) : Patch where
  lib := "microLXMF".toList
  relpath := ("src/LXMF/" ++ file).toList
  patchId := "arduino-macros".toList
  replacements := []
  why := "Arduino.h abs/round macros vs libstdc++ <chrono>".toList
  insertAtTop := some arduinoMacroPrologue

/-- The mutex of the stamper. -/
def noGthreads : Patch where
  lib := "microLXMF".toList
  relpath := "src/LXMF/LXStamper.cpp".toList
  patchId := "no-gthreads".toList
  replacements :=
    [⟨"#include <mutex>".toList, mutexShim, by decide⟩,
      ⟨"std::mutex slot_mutex;".toList, "ThicketStampMutex slot_mutex;".toList, by decide⟩,
      ⟨"std::lock_guard<std::mutex>".toList, "std::lock_guard<ThicketStampMutex>".toList,
        by decide⟩]
  why := "std::mutex absent without gthreads".toList

/-- The packer's private members. -/
def packerPublic : Patch where
  lib := "MsgPack".toList
  relpath := "MsgPack/Packer.h".toList
  patchId := "packer-public".toList
  replacements :=
    [⟨"    private:\n        void packRawByte".toList,
      "    public:  // ".toList ++ marker
        ++ ":packer-public, was `private:`; microLXMF needs packRawBytes()\n".toList
        ++ "        void packRawByte".toList, by decide⟩]
  why := "microLXMF splices pre-encoded msgpack values via Packer::packRawBytes".toList

/-- The unpacker's private members. -/
def unpackerPublic : Patch where
  lib := "MsgPack".toList
  relpath := "MsgPack/Unpacker.h".toList
  patchId := "unpacker-public".toList
  replacements :=
    [⟨"    class Unpacker \x7b\n        uint8_t* raw_data".toList,
      "    class Unpacker \x7b\n    public:  // ".toList ++ marker
        ++ ":unpacker-public, class-default private; microLXMF reads `indices`\n".toList
        ++ "        uint8_t* raw_data".toList, by decide⟩]
  why := "microLXMF reads Unpacker::indices to capture key/value byte spans".toList

/-- Every call of `patch`, in order. -/
def patches : List Patch :=
  ["LXMRouter.cpp", "LXMessage.cpp", "LXStamper.cpp", "MessageStore.cpp",
    "PropagationNodeManager.cpp"].map arduinoMacros ++ [noGthreads, packerPublic, unpackerPublic]

end Thicket.Scripts.PatchDeps
