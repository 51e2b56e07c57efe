import Thicket.Page.Window

/-! # Composing a page

`compose_page` in `lib/MicronRender/src/ComposePage.h` is the one way from a source to the panel: a
white framebuffer, a renderer that has begun, and a callback for every line. The Micron parser is a
parameter; a blank line never gets to it. -/

namespace Thicket.Page

open Thicket.Lcd Thicket.Page.Span

/-- `micron::Parser`: what `reset` leaves, and what `parseLine` makes of a line. -/
structure Parser where
  /-- What the parser remembers from line to line. -/
  State : Type
  /-- `reset`. -/
  reset : State
  /-- `parseLine`: what it calls, and what it remembers. -/
  parseLine : State → Span → List Callback × State

/-- Where the line ends that begins at `i`: `while (e < len && src[e] != '\n') ++e`. -/
def lineEndOf (src : List UInt8) (i : Nat) : Nat :=
  i + ((src.drop i).takeWhile fun c => c != 0x0A).length

/-- The lines from `i` on, with where they end: `while (i <= len)`. -/
def sourceLines (src : List UInt8) (i : Nat) : List (Nat × Nat) :=
  if src.length < i then []
  else if src.length ≤ lineEndOf src i then [(i, lineEndOf src i)]
  else (i, lineEndOf src i) :: sourceLines src (lineEndOf src i + 1)
termination_by src.length + 1 - i
decreasing_by
  have hle : i ≤ lineEndOf src i := Nat.le_add_right i _
  omega

namespace Parser

variable (p : Parser)

/-- What lines call, one after the other. -/
def lineCallbacks (src : List UInt8) : p.State → List (Nat × Nat) → List Callback
  | _, [] => []
  | s, (i, e) :: lines =>
      if e = i then .blankLine :: lineCallbacks src s lines
      else
        let (calls, s) := p.parseLine s ((ofList src).sub i (e - i))
        calls ++ lineCallbacks src s lines

/-- What a page calls. -/
def pageCallbacks (src : List UInt8) : List Callback :=
  p.lineCallbacks src p.reset (sourceLines src 0)

/-- An empty page is one blank line. -/
theorem pageCallbacks_nil : p.pageCallbacks [] = [.blankLine] := by
  rw [pageCallbacks, sourceLines]
  rfl

/-- What every line calls, the page calls. -/
theorem forall_pageCallbacks {good : Callback → Prop} (hblank : good .blankLine)
    (hline : ∀ s t, ∀ c ∈ (p.parseLine s t).1, good c) (src : List UInt8) :
    ∀ c ∈ p.pageCallbacks src, good c := by
  suffices h : ∀ lines s, ∀ c ∈ p.lineCallbacks src s lines, good c from h _ _
  -- over the lines, with whatever the parser remembers
  intro lines
  induction lines with
  | nil =>
    intro s c hc
    cases hc
  | cons l lines ih =>
    intro s c hc
    rw [lineCallbacks] at hc
    split at hc
    · obtain rfl | hmem := List.mem_cons.mp hc
      · exact hblank
      · exact ih s c hmem
    · obtain hmem | hmem := List.mem_append.mp hc
      · exact hline s _ c hmem
      · exact ih _ c hmem

end Parser

/-! ## The pass -/

variable (o : Options) (p : Parser) (tbuf : Nat → UInt8)

/-- The renderer after the pass over a source, built on whatever `tbuf` holds. -/
def composePage (src : List UInt8) (scroll : UInt16) : PageRenderer :=
  Runs.run (PageRenderer.step o) ((PageRenderer.fresh tbuf).begin scroll) (p.pageCallbacks src)

/-- What the pass does to the driver. -/
def composeOps (src : List UInt8) (scroll : UInt16) : List LcdOp :=
  .fillWhite :: issued (composePage o p tbuf src scroll).log ++ [.flush]

/-- What the framebuffer holds after the pass, on a bus that goes nowhere; `none` when a rectangle
never returns. -/
def composeOnto (src : List UInt8) (scroll : UInt16) (fb : Image) : Option Image :=
  (Display.execAll o.fonts (Display.powerUp fb) (composeOps o p tbuf src scroll)).map (·.lcd.fb)

/-- **A pass covers the framebuffer**: what it held is not seen. -/
theorem composeOnto_eq (src : List UInt8) (scroll : UInt16) (fb fb' : Image) :
    composeOnto o p tbuf src scroll fb = composeOnto o p tbuf src scroll fb' := rfl

/-- **The height of a page does not depend on the scroll.** -/
def HeightFixed (src : List UInt8) : Prop :=
  ∀ s t, (composePage o p tbuf src s).contentHeight = (composePage o p tbuf src t).contentHeight

variable {o p tbuf}

/-- Where no slice of a table breaks, the height is the whole page's. -/
theorem heightFixed_of_steady {src : List UInt8}
    (h : ∀ s, Runs.Along (PageRenderer.step o) Steady ((PageRenderer.fresh tbuf).begin s)
      (p.pageCallbacks src)) : HeightFixed o p tbuf src := by
  -- every window sees what the pass over the whole page sees
  have hwhole (s : UInt16) : (composePage o p tbuf src s).contentHeight
      = (Runs.run (PageRenderer.step o) (PageRenderer.fresh tbuf).beginWhole
          (p.pageCallbacks src)).contentHeight := by
    have hsim := (h s).simulation id (Seen s)
      (fun a b c hab hc => PageRenderer.seen_step hab ((hab.steady_iff c).mp hc))
      (seen_begin s _)
    rw [List.map_id] at hsim
    exact hsim.windowOf.height_eq
  intro s t
  rw [hwhole s, hwhole t]

/-- A page without tables is as high at every scroll. -/
theorem heightFixed_of_noTable {src : List UInt8}
    (h : ∀ c ∈ p.pageCallbacks src, ∀ s, c ≠ .tableEnd s) : HeightFixed o p tbuf src := by
  refine heightFixed_of_steady fun s => Runs.along_of_forall (fun r c hc => ?_) _
  cases c with
  | tableEnd st => exact absurd rfl (h _ hc st)
  | _ => trivial

/-- The empty page is. -/
theorem heightFixed_nil : HeightFixed o p tbuf [] := by
  refine heightFixed_of_noTable fun c hc s => ?_
  rw [p.pageCallbacks_nil, List.mem_singleton] at hc
  subst hc
  exact Callback.noConfusion

end Thicket.Page
