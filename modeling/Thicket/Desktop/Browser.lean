import Thicket.Page.Compose

/-! # The browser

`desktop/browser.cpp`: a page, a back stack, the scroll and the focus. A page comes from the disk or
over the mesh, and every command is followed by `recompose`, as both front-ends do. The disk does
not change; the answer of the mesh is part of the command that asks for it. -/

namespace Thicket.Desktop

open Thicket.Lcd Thicket.Page

/-! ## Strings and files -/

/-- `std::string`. -/
abbrev Str : Type := List UInt8

/-- A literal. -/
def lit (s : String) : Str := s.toList.map fun c => UInt8.ofNat c.toNat

/-- `'/'`. -/
def slash : UInt8 := 0x2F
/-- `':'`. -/
def colon : UInt8 := 0x3A

/-- `p.find_last_of(c)`. -/
def findLast (c : UInt8) (p : Str) : Option Nat :=
  (p.reverse.findIdx? (· == c)).map fun k => p.length - 1 - k

/-- `dirname_of`. -/
def dirnameOf (p : Str) : Str :=
  match findLast slash p with
  | none => lit "."
  | some s => p.take s

/-- `basename_of`. -/
def basenameOf (p : Str) : Str :=
  match findLast slash p with
  | none => p
  | some s => p.drop (s + 1)

/-- `std::isxdigit`. -/
def isHexDigit (c : UInt8) : Bool :=
  (0x30 ≤ c && c ≤ 0x39) || (0x41 ≤ c && c ≤ 0x46) || (0x61 ≤ c && c ≤ 0x66)

/-- `looks_hex`. -/
def looksHex (s : Str) : Bool := 8 ≤ s.length && s.all isHexDigit

/-- `replace_all`, for a single character as its one call has it. -/
def replaceAll (s : Str) (a : UInt8) (b : Str) : Str := s.flatMap fun c => if c = a then b else [c]

/-- The file system. -/
structure Disk where
  /-- `file_exists`. -/
  fileExists : Str → Bool
  /-- `read_file`. -/
  readFile : Str → Option Str

/-- The hash and the path of a target; no hash for a plain one. -/
def splitTarget (target : Str) : Str × Str :=
  match target.findIdx? (· == colon) with
  | none => ([], target)
  | some c =>
      if looksHex (target.take c) then (target.take c, target.drop (c + 1)) else ([], target)

/-- `cands`: where a target is looked for. -/
def candidates (target curdir root : Str) : List Str :=
  let (hash, path) := splitTarget target
  let rel := if path.head? = some slash then path.tail else path
  let und := replaceAll rel slash (lit "__")
  let base := basenameOf path
  (if hash = [] then []
    else [root ++ lit "/" ++ hash.take 16 ++ lit "__" ++ und,
      root ++ lit "/" ++ hash ++ lit "__" ++ und])
  ++ [curdir ++ lit "/" ++ base, curdir ++ lit "/" ++ rel, root ++ lit "/" ++ rel,
    root ++ lit "/" ++ base]

/-- A candidate that is held, with `.mu` put behind it where it is not there. -/
def Disk.held (disk : Disk) (cand : Str) : Option Str :=
  if disk.fileExists cand then some cand
  else if (cand.length < 3 || cand.drop (cand.length - 3) != lit ".mu")
      && disk.fileExists (cand ++ lit ".mu") then some (cand ++ lit ".mu")
  else none

/-- **`resolve`**: the local file of a target, or nothing. -/
def Disk.resolve (disk : Disk) (target curdir root : Str) : Str :=
  if target = [] ∨ target.head? = some colon then []
  else ((candidates target curdir root).findSome? disk.held).getD []

/-! ## Frames -/

/-- `Box`: a link as the browser holds it. -/
structure Box where
  /-- `x`. -/
  x : Int
  /-- `y`. -/
  y : Int
  /-- `w`. -/
  w : Int
  /-- `h`. -/
  h : Int
  /-- `target`. -/
  target : Str

/-- A stable copy of a link. -/
def Box.ofLink (b : LinkBox) : Box where
  x := b.x.toNat
  y := b.y.toNat
  w := b.w.toNat
  h := b.h.toNat
  target := (List.range b.targetLen.toNat).map b.target.byte

/-- A point is inside a box. -/
def Box.Hit (b : Box) (x y : Int) : Prop := b.x ≤ x ∧ x < b.x + b.w ∧ b.y ≤ y ∧ y < b.y + b.h

instance (b : Box) (x y : Int) : Decidable (b.Hit x y) := inferInstanceAs (Decidable (_ ∧ _))

/-- `Frame`. -/
structure Frame where
  /-- `height`. -/
  height : UInt16 := 0
  /-- `links`. -/
  links : List Box := []

/-- One pixel of `invert_box`. -/
def invertPixel (y : Int) (lcd : SharpLcd) (x : Int) : SharpLcd :=
  if x < 0 ∨ lcdWidth ≤ x then lcd
  else
    let px := UInt16.ofNat x.toNat
    let py := UInt16.ofNat y.toNat
    lcd.setPixel px py (!lcd.getPixel px py)

/-- One row of it, a pixel wider than the box on both sides. -/
def invertRow (b : Box) (lcd : SharpLcd) (y : Int) : SharpLcd :=
  if y < 0 ∨ lcdHeight ≤ y then lcd
  else ((List.range (b.w + 2).toNat).map fun k => b.x - 1 + k).foldl (invertPixel y) lcd

/-- **`invert_box`**: reverse video for the focused link. -/
def invertBox (b : Box) (fb : Image) : Image :=
  (((List.range b.h.toNat).map fun k => b.y + k).foldl (invertRow b) { fb := fb }).fb

/-! ## The state -/

/-- `PageState`. -/
structure PageState where
  /-- `src`. -/
  src : Str := []
  /-- `address`. -/
  address : Str := []
  /-- `dir`. -/
  dir : Str := []
  /-- `scroll`. -/
  scroll : UInt16 := 0
  /-- `focus`: an index into the links of the frame, or `-1`. -/
  focus : Int := -1

/-- `Browser`, with the framebuffer that it draws into. -/
structure Browser where
  /-- `_root`. -/
  root : Str
  /-- `_cur`. -/
  cur : PageState := {}
  /-- `_frame`. -/
  frame : Frame := {}
  /-- `_stack`, the page that was left last first. -/
  stack : List PageState := []
  /-- `_last_scroll`. -/
  lastScroll : UInt16 := 0
  /-- `_status`. -/
  status : Str := []
  /-- `g_fb`; `none` when a rectangle of some frame never returned. -/
  fb : Option Image

/-- What the browser is built with and runs on. -/
structure World where
  /-- The generated fonts. -/
  fonts : Fonts
  /-- The Micron parser. -/
  parser : Parser
  /-- What is on the stack where a renderer is built. -/
  tbuf : Nat → UInt8
  /-- The disk. -/
  disk : Disk
  /-- `THICKET_LIVE_FETCH`. -/
  liveFetch : Bool

/-- `FetchResult`. -/
structure FetchResult where
  /-- `ok`. -/
  ok : Bool
  /-- `page`. -/
  page : Str
  /-- `error`. -/
  error : Str

namespace World

variable (w : World)

/-- The constructor's defaults. -/
def options : Options := { fonts := w.fonts }

/-- The frame that `compose` returns. -/
def frameOf (src : Str) (scroll : UInt16) : Frame where
  height := (composePage w.options w.parser w.tbuf src scroll).contentHeight
  links := (composePage w.options w.parser w.tbuf src scroll).links.boxes.map .ofLink

/-- The picture that `compose` draws. -/
def picture (src : Str) (scroll : UInt16) (fb : Image) : Option Image :=
  composeOnto w.options w.parser w.tbuf src scroll fb

end World

/-- `clamp_scroll`. -/
def clampScroll (s : Int) (height : UInt16) : UInt16 :=
  let maxs := max 0 ((height.toNat : Int) - lcdHeight)
  let s := if s < 0 then 0 else s
  UInt16.ofNat (if maxs < s then maxs else s).toNat

namespace Browser

variable (w : World) (b : Browser)

/-- `_frame = compose(_cur.src, _cur.scroll)`. -/
def compose : Browser :=
  { b with
    frame := w.frameOf b.cur.src b.cur.scroll
    fb := b.fb.bind (w.picture b.cur.src b.cur.scroll) }

/-- The scroll, clamped to the frame. -/
def clamp : Browser :=
  { b with cur := { b.cur with scroll := clampScroll b.cur.scroll.toNat b.frame.height } }

/-- The second pass, where the scroll is not the one that was composed last. -/
def settle : Browser :=
  if b.cur.scroll ≠ b.lastScroll then { b.compose w with lastScroll := b.cur.scroll } else b

/-- A focus that is not on the frame is dropped. -/
def dropFocus : Browser :=
  if (b.frame.links.length : Int) ≤ b.cur.focus then { b with cur := { b.cur with focus := -1 } }
  else b

/-- The link in focus. -/
def focused : Option Box := if 0 ≤ b.cur.focus then b.frame.links[b.cur.focus.toNat]? else none

/-- The overlay of the focus on a picture. -/
def overlay (fb : Image) : Image :=
  match b.focused with
  | some box => invertBox box fb
  | none => fb

/-- The link in focus is shown in reverse video. -/
def showFocus : Browser := { b with fb := b.fb.map b.overlay }

/-- **`recompose`**. -/
def recompose : Browser := (((b.compose w).clamp.settle w).dropFocus).showFocus

/-! ## Commands -/

/-- **`open_path`**. -/
def openPath (path : Str) : Bool × Browser :=
  match w.disk.readFile path with
  | none => (false, { b with status := lit "cannot open " ++ path })
  | some src =>
      (true, { b with
        cur := { src := src, address := path, dir := dirnameOf path }
        status := lit "opened " ++ basenameOf path }.recompose w)

/-- **`scroll_by`**. -/
def scrollBy (d : Int) : Browser :=
  let scroll := clampScroll (b.cur.scroll.toNat + d) b.frame.height
  { b with cur := { b.cur with scroll := scroll, focus := -1 }, lastScroll := scroll }

/-- `scroll_top`. -/
def scrollTop : Browser :=
  { b with cur := { b.cur with scroll := 0, focus := -1 }, lastScroll := 0 }

/-- `scroll_bottom`. -/
def scrollBottom : Browser := b.scrollBy b.frame.height.toNat

/-- **`focus_cycle`**. -/
def focusCycle (dir : Int) : Browser :=
  let n : Int := b.frame.links.length
  if n = 0 then
    { b with status := lit "no links on screen; scroll to more", cur := { b.cur with focus := -1 } }
  else
    let focus := if b.cur.focus < 0 then (if 0 < dir then 0 else n - 1)
      else (b.cur.focus + dir + n).tmod n
    { b with
      cur := { b.cur with focus := focus }
      status := lit "link " ++ lit (toString (focus + 1)) ++ lit "/" ++ lit (toString n) ++ lit ": "
        ++ (b.frame.links[focus.toNat]?.map Box.target).getD [] }

/-- `set_focus`. -/
def setFocus (i : Int) : Browser :=
  if 0 ≤ i ∧ i < b.frame.links.length then { b with cur := { b.cur with focus := i } } else b

/-- **`commit_page`**: the current page goes on the stack. -/
def commitPage (src address dir : Str) : Browser :=
  { b with
    cur := { src := src, address := address, dir := dir }
    stack := { b.cur with focus := -1 } :: b.stack
    lastScroll := 0 }

/-- **`follow_target`**, and what the mesh answers if it is asked. -/
def followTarget (target : Str) (reply : FetchResult) : Bool × Browser :=
  let path := w.disk.resolve target b.cur.dir b.root
  if path ≠ [] then
    match w.disk.readFile path with
    | none => (false, { b with status := lit "cannot open " ++ path })
    | some src =>
        (true, { b.commitPage src target (dirnameOf path) with
          status := lit "followed -> " ++ basenameOf path })
  else if w.liveFetch then
    if reply.ok then
      (true, { b.commitPage reply.page target [] with status := lit "fetched -> " ++ target })
    else (false, { b with status := lit "fetch failed: " ++ reply.error })
  else (false, { b with status := lit "not held locally: " ++ target })

/-- **`follow_focus`**. -/
def followFocus (reply : FetchResult) : Bool × Browser :=
  match b.focused with
  | none => (false, { b with status := lit "no link focused" })
  | some box => b.followTarget w box.target reply

/-- **`click_at`**: the first box that is hit. -/
def clickAt (x y : Int) (reply : FetchResult) : Bool × Browser :=
  match b.frame.links.findIdx? (fun box => box.Hit x y) with
  | none => (false, b)
  | some i =>
      { b with cur := { b.cur with focus := i } }.followTarget w
        ((b.frame.links[i]?.map Box.target).getD []) reply

/-- **`back`**. -/
def back : Bool × Browser :=
  match b.stack with
  | [] => (false, { b with status := lit "no page to go back to" })
  | p :: rest =>
      (true, { b with
        cur := p, stack := rest, lastScroll := p.scroll
        status := lit "back -> " ++ basenameOf p.address })

end Browser

/-- What the front-ends do between two calls of `recompose`. -/
inductive Command where
  /-- `open_path`. -/
  | openPath (path : Str)
  /-- `scroll_by`. -/
  | scrollBy (d : Int)
  /-- `scroll_top`. -/
  | scrollTop
  /-- `scroll_bottom`. -/
  | scrollBottom
  /-- `focus_cycle(+1)`. -/
  | next
  /-- `focus_cycle(-1)`. -/
  | prev
  /-- `set_focus`. -/
  | setFocus (i : Int)
  /-- `follow_focus`, with the answer of the mesh. -/
  | followFocus (reply : FetchResult)
  /-- `click_at`, with the answer of the mesh. -/
  | clickAt (x y : Int) (reply : FetchResult)
  /-- `back`. -/
  | back
  /-- `shot`, or a command that is not known. -/
  | none

/-- One command. -/
def Browser.exec (w : World) (b : Browser) : Command → Browser
  | .openPath path => (b.openPath w path).2
  | .scrollBy d => b.scrollBy d
  | .scrollTop => b.scrollTop
  | .scrollBottom => b.scrollBottom
  | .next => b.focusCycle 1
  | .prev => b.focusCycle (-1)
  | .setFocus i => b.setFocus i
  | .followFocus reply => (b.followFocus w reply).2
  | .clickAt x y reply => (b.clickAt w x y reply).2
  | .back => b.back.2
  | .none => b

/-- A command and the `recompose` behind it. -/
def Browser.step (w : World) (b : Browser) (c : Command) : Browser := (b.exec w c).recompose w

/-- **A session**: commands to a browser that has just been built. -/
def session (w : World) (root : Str) (fb : Image) (cs : List Command) : Browser :=
  Runs.run (Browser.step w) { root := root, fb := some fb } cs

end Thicket.Desktop
