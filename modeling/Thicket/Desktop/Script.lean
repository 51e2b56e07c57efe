import Thicket.Desktop.Navigation
import Thicket.Lcd.Screenshot

/-! # Scripts

`run_script` of `desktop/browser.cpp`: orders between semicolons, and a picture of the screen
wherever one of them is a `shot`. -/

namespace Thicket.Desktop

open Thicket.Lcd Thicket.Page

/-! ## Orders -/

/-- `';'`. -/
def semicolon : UInt8 := 0x3B
/-- `' '`. -/
def blank : UInt8 := 0x20

/-- `std::isspace`. -/
def isSpace (c : UInt8) : Bool := c == blank || (0x09 ≤ c && c ≤ 0x0D)

/-- The loop over `i`: what stands between the semicolons. -/
def pieces : Str → List Str
  | [] => []
  | c :: text =>
      (c :: text).takeWhile (· != semicolon)
        :: pieces (((c :: text).dropWhile (· != semicolon)).drop 1)
termination_by script => script.length
decreasing_by
  have hle := (List.dropWhile_suffix (l := c :: text) (· != semicolon)).length_le
  rw [List.length_drop]
  rw [List.length_cons] at hle ⊢
  omega

/-- The two loops that trim. -/
def trim (cmd : Str) : Str := ((cmd.dropWhile isSpace).reverse.dropWhile isSpace).reverse

/-- `std::isdigit`. -/
def isDigit (c : UInt8) : Bool := 0x30 ≤ c && c ≤ 0x39

/-- What is done of a script, one after the other. -/
def orders (script : Str) : List Str := ((pieces script).map trim).filter (· ≠ [])

/-- The number that some digits begin with. -/
def leadingDigits (s : Str) : Nat :=
  (s.takeWhile isDigit).foldl (fun n c => 10 * n + (c.toNat - 48)) 0

/-- `std::atol`; a number that no `long` holds gives the nearest that one does. -/
def atol (s : Str) : Int :=
  let t := s.dropWhile isSpace
  if t.head? = some 0x2D then max (-2 ^ 63) (-leadingDigits t.tail)
  else if t.head? = some 0x2B then min (2 ^ 63 - 1) (leadingDigits t.tail)
  else min (2 ^ 63 - 1) (leadingDigits t)

/-- An order, cut at its first blank. -/
structure Order where
  /-- `op`. -/
  op : Str
  /-- `arg`. -/
  arg : Int
  /-- `cmd.substr(sp + 1)`; the whole order where there is no blank. -/
  path : Str

/-- The order of a `cmd`. -/
def Order.parse (cmd : Str) : Order :=
  match cmd.findIdx? (· == blank) with
  | none => { op := cmd, arg := 0, path := cmd }
  | some sp =>
      { op := cmd.take sp, arg := atol (cmd.drop (sp + 1)), path := cmd.drop (sp + 1) }

/-- What an order does to the browser before `recompose`, and what the mesh answers if it is
asked. -/
def Order.command (o : Order) (reply : FetchResult) : Command :=
  let n := if o.arg = 0 then 15 else o.arg
  if o.op = lit "down" then .scrollBy n
  else if o.op = lit "up" then .scrollBy (-n)
  else if o.op = lit "pagedown" then .scrollBy (lcdHeight - 20)
  else if o.op = lit "pageup" then .scrollBy (-(lcdHeight - 20))
  else if o.op = lit "top" then .scrollTop
  else if o.op = lit "bottom" then .scrollBottom
  else if o.op = lit "next" then .next
  else if o.op = lit "prev" then .prev
  -- `(int)arg`
  else if o.op = lit "focus" then .setFocus (o.arg.bmod (2 ^ 32))
  else if o.op = lit "enter" then .followFocus reply
  else if o.op = lit "back" then .back
  else if o.op = lit "open" then .openPath o.path
  else .none

/-! ## Shots -/

/-- **`scroll_pct`**. -/
def Browser.scrollPct (b : Browser) : Int :=
  let span : Int := b.frame.height.toNat - lcdHeight
  if span ≤ 0 then 100 else (100 * (b.cur.scroll.toNat : Int)).tdiv span

/-- `%02d`. -/
def twoDigits (k : Nat) : Str := lit (if k < 10 then "0" ++ toString k else toString k)

/-- `s.c_str()`, up to its end. -/
def cStr (s : Str) : Str := s.takeWhile (· != 0)

/-- The name of a shot, in a buffer of 64. -/
def shotName (outdir : Str) (k : Nat) : Str :=
  (cStr outdir ++ lit "/" ++ twoDigits k ++ lit ".pbm").take 63

/-- A shot: the file that is written and what is printed about it. -/
structure Shot where
  /-- `name`. -/
  name : Str
  /-- What `write_pbm` writes; `none` when a rectangle of the frame never returned. -/
  pbm : Option (List Char)
  /-- `page().address`. -/
  address : Str
  /-- `height()`. -/
  height : UInt16
  /-- `scroll_pct()`. -/
  percent : Int
  /-- `status()`. -/
  status : Str

/-- The shot with number `k`. -/
def Browser.shot (b : Browser) (outdir : Str) (k : Nat) (scale : UInt8) : Shot where
  name := shotName outdir k
  pbm := b.fb.map fun fb => ({ fb := fb } : SharpLcd).writePbm scale
  address := b.cur.address
  height := b.frame.height
  percent := b.scrollPct
  status := b.status

/-! ## The loop -/

/-- A script that is being run. -/
structure Playback where
  /-- `br`. -/
  browser : Browser
  /-- The shots so far. -/
  shots : List Shot := []

variable (w : World)

/-- One order. -/
def Playback.perform (outdir : Str) (scale : UInt8) (p : Playback) (o : Order × FetchResult) :
    Playback :=
  let b := p.browser.step w (o.1.command o.2)
  { browser := b
    shots := if o.1.op = lit "shot" then p.shots ++ [b.shot outdir p.shots.length scale]
      else p.shots }

/-- The orders of a script, with the answers of the mesh in turn. -/
def ordersOf (script : Str) (mesh : Nat → FetchResult) : List (Order × FetchResult) :=
  (orders script).mapIdx fun k cmd => (Order.parse cmd, mesh k)

/-- **`run_script`**. -/
def runScript (b : Browser) (script outdir : Str) (scale : UInt8) (mesh : Nat → FetchResult) :
    Playback :=
  Runs.run (Playback.perform w outdir scale) { browser := b } (ordersOf script mesh)

/-- The browser that `main` has opened its page in. -/
def opened (root page : Str) (fb : Image) : Option Browser :=
  match ({ root := root, fb := some fb } : Browser).openPath w page with
  | (true, b) => some b
  | (false, _) => none

variable {w}

/-! ## Numbers -/

/-- The digits of a number. -/
theorem toNat_of_mem_decimal {n : Nat} {d : Char} (h : d ∈ (toString n).toList) :
    48 ≤ d.toNat ∧ d.toNat ≤ 57 := by
  have hdigit : d.isDigit = true :=
    Nat.isDigit_of_mem_toDigits (by decide) (by decide) (Nat.toList_repr ▸ h)
  simpa [Char.isDigit, UInt32.le_iff_toNat_le] using hdigit

/-- A digit as a byte. -/
theorem toNat_byte {n : Nat} {d : Char} (h : d ∈ (toString n).toList) :
    (UInt8.ofNat d.toNat).toNat = d.toNat := by
  have hrange := toNat_of_mem_decimal h
  rw [UInt8.toNat_ofNat', Nat.mod_eq_of_lt (by omega)]

/-- The bytes of a number are digits. -/
theorem isDigit_of_mem_decimal {n : Nat} {c : UInt8} (h : c ∈ lit (toString n)) :
    isDigit c = true := by
  obtain ⟨d, hd, rfl⟩ := List.mem_map.mp h
  simp only [isDigit, Bool.and_eq_true, decide_eq_true_eq, UInt8.le_iff_toNat_le, toNat_byte hd]
  exact toNat_of_mem_decimal hd

/-- **Digits are read as the number they are of.** -/
theorem leadingDigits_decimal (n : Nat) {rest : Str} (h : ∀ c ∈ rest.head?, isDigit c = false) :
    leadingDigits (lit (toString n) ++ rest) = n := by
  have hrest : rest.takeWhile isDigit = [] := by
    cases rest with
    | nil => rfl
    | cons c rest => rw [List.takeWhile_cons, h c rfl, if_neg (by decide)]
  have hvalue : Nat.ofDigitChars 10 (toString n).toList 0 = n := by
    rw [show (toString n).toList = Nat.toDigits 10 n from Nat.toList_repr,
      Nat.ofDigitChars_ten_toDigits]
  rw [leadingDigits, List.takeWhile_append_of_pos fun c hc => isDigit_of_mem_decimal hc, hrest,
    List.append_nil, lit, List.foldl_map]
  refine Eq.trans (List.foldl_ext _ _ 0 fun m d hd => ?_) hvalue
  rw [toNat_byte hd]
  rfl

/-! ## A script is read as its orders -/

/-- An order that a script can hold: not empty, no semicolon in it, no white space around it. -/
structure Plain (cmd : Str) : Prop where
  /-- It is not skipped. -/
  ne_nil : cmd ≠ []
  /-- It is not cut. -/
  semicolon_notMem : semicolon ∉ cmd
  /-- Nothing is trimmed in front. -/
  head : ∀ c ∈ cmd.head?, isSpace c = false
  /-- Nothing is trimmed behind. -/
  last : ∀ c ∈ cmd.getLast?, isSpace c = false

/-- The text up to a semicolon is a piece. -/
theorem pieces_append {cmd : Str} (h : semicolon ∉ cmd) (rest : Str) :
    pieces (cmd ++ semicolon :: rest) = cmd :: pieces rest := by
  have hall : ∀ c ∈ cmd, (c != semicolon) = true := by
    intro c hc
    rw [bne_iff_ne]
    rintro rfl
    exact h hc
  have htake : (cmd ++ semicolon :: rest).takeWhile (· != semicolon) = cmd := by
    rw [List.takeWhile_append_of_pos hall, List.takeWhile_cons]
    simp
  have hdrop : (cmd ++ semicolon :: rest).dropWhile (· != semicolon) = semicolon :: rest := by
    rw [List.dropWhile_append_of_pos hall, List.dropWhile_cons]
    simp
  obtain ⟨c, text, htext⟩ : ∃ c text, cmd ++ semicolon :: rest = c :: text :=
    List.exists_cons_of_ne_nil (by simp)
  rw [htext] at htake hdrop ⊢
  rw [pieces, htake, hdrop, List.drop_one, List.tail_cons]

/-- Nothing is trimmed of a plain order. -/
theorem Plain.trim_eq {cmd : Str} (h : Plain cmd) : trim cmd = cmd := by
  have hdrop (s : Str) (hs : ∀ c ∈ s.head?, isSpace c = false) : s.dropWhile isSpace = s := by
    cases s with
    | nil => rfl
    | cons c s => rw [List.dropWhile_cons, hs c rfl, if_neg (by decide)]
  rw [trim, hdrop cmd h.head, hdrop _ fun c hc => h.last c (by rwa [List.head?_reverse] at hc),
    List.reverse_reverse]

/-- The text of some orders. -/
def scriptOf (cmds : List Str) : Str := cmds.flatMap (· ++ [semicolon])

/-- **A script is read as the orders it was written from.** -/
theorem orders_scriptOf {cmds : List Str} (h : ∀ cmd ∈ cmds, Plain cmd) :
    orders (scriptOf cmds) = cmds := by
  have hpieces : pieces (scriptOf cmds) = cmds := by
    induction cmds with
    | nil => rw [scriptOf, List.flatMap_nil, pieces]
    | cons cmd cmds ih =>
      rw [List.forall_mem_cons] at h
      rw [scriptOf, List.flatMap_cons, List.append_assoc, List.singleton_append,
        pieces_append h.1.semicolon_notMem]
      exact congrArg _ (ih h.2)
  have htrim : cmds.map trim = cmds.map id :=
    List.map_congr_left fun cmd hcmd => (h cmd hcmd).trim_eq
  rw [orders, hpieces, htrim, List.map_id, List.filter_eq_self]
  intro cmd hcmd
  simpa using (h cmd hcmd).ne_nil

/-! ## Every shot -/

/-- The browsers that the shots are taken of. -/
def shotBrowsers (w : World) (b : Browser) (os : List (Order × FetchResult)) : List Browser :=
  Runs.outputs (fun b o => b.step w (o.1.command o.2))
    (fun b o => if o.1.op = lit "shot" then [b.step w (o.1.command o.2)] else []) b os

/-- What a script leaves. -/
theorem run_perform (outdir : Str) (scale : UInt8) (p : Playback)
    (os : List (Order × FetchResult)) : Runs.run (Playback.perform w outdir scale) p os =
      { browser := Runs.run (Browser.step w) p.browser (os.map fun o => o.1.command o.2)
        shots := p.shots ++ (shotBrowsers w p.browser os).mapIdx fun k b =>
          b.shot outdir (p.shots.length + k) scale } := by
  induction os generalizing p with
  | nil => simp [shotBrowsers]
  | cons o os ih =>
    rw [Runs.run_cons, ih]
    unfold Playback.perform shotBrowsers
    split
    next hshot => simp [hshot, Nat.add_left_comm, Nat.add_comm]
    next hshot => simp [hshot]

/-- A page is at its end when no line of it is below the panel. -/
def Browser.AtEnd (b : Browser) : Prop := maxScroll b.frame.height ≤ b.cur.scroll.toNat

/-- **The percentage** of a consistent browser. -/
theorem Browser.Consistent.scrollPct {b : Browser} (h : b.Consistent w) :
    0 ≤ b.scrollPct ∧ b.scrollPct ≤ 100 ∧ (b.scrollPct = 100 ↔ b.AtEnd) := by
  have hscroll := h.scroll_le
  unfold Browser.scrollPct Browser.AtEnd maxScroll
  dsimp only
  split_ifs with hspan
  · exact ⟨by decide, le_refl 100, by omega⟩
  · have hpos : 0 < (b.frame.height.toNat : Int) - lcdHeight := not_le.mp hspan
    have hnonneg : (0 : Int) ≤ 100 * b.cur.scroll.toNat := by omega
    have hend : (100 : Int) ≤ 100 * b.cur.scroll.toNat / (b.frame.height.toNat - lcdHeight)
        ↔ 100 * ((b.frame.height.toNat : Int) - lcdHeight) ≤ 100 * b.cur.scroll.toNat :=
      Int.le_ediv_iff_mul_le hpos
    have hover : (100 * b.cur.scroll.toNat : Int) / (b.frame.height.toNat - lcdHeight) ≤ 100 := by
      refine Int.ediv_le_of_le_mul hpos ?_
      omega
    rw [Int.tdiv_eq_ediv_of_nonneg hnonneg]
    refine ⟨Int.ediv_nonneg hnonneg hpos.le, hover, ?_⟩
    omega

/-- What a shot shows of the browser it is taken of. -/
structure Shot.Shows (w : World) (b : Browser) (scale : UInt8) (s : Shot) : Prop where
  /-- The browser is consistent. -/
  consistent : b.Consistent w
  /-- The file is read back as the page at this scroll, with the focused link in reverse video. -/
  pbm : ∀ file ∈ s.pbm, ∃ page bits, (∀ fb, w.picture b.cur.src b.cur.scroll fb = some page) ∧
    Lcd.Shows file ({ fb := b.overlay page } : SharpLcd).getPixel (pbmScale scale) bits
  /-- The address is that of the page. -/
  address_eq : s.address = b.cur.address
  /-- The height is that of the page. -/
  height_eq : s.height = w.heightOf b.cur
  /-- The percentage is one. -/
  percent_mem : 0 ≤ s.percent ∧ s.percent ≤ 100
  /-- It is full at the end of the page, and nowhere else. -/
  percent_eq : s.percent = 100 ↔ b.AtEnd

/-- The page that `main` opens has been composed. -/
theorem exists_recompose_of_opened (hdisk : w.FixedDisk) {root page : Str} {fb : Image}
    {b : Browser} (h : opened w root page fb = some b) : ∃ c : Browser, c.Sound w ∧
    b = c.recompose w := by
  unfold opened Browser.openPath at h
  cases hread : w.disk.readFile page with
  | none => simp [hread] at h
  | some src =>
    rw [hread] at h
    have hnew : Browser.Sound w { ({ root := root, fb := some fb } : Browser) with
        cur := { src := src, address := page, dir := dirnameOf page }
        status := lit "opened " ++ basenameOf page } :=
      ⟨.top (hdisk page src hread) page (dirnameOf page), fun _ hp => nomatch hp⟩
    exact ⟨_, hnew, (Option.some.inj h).symm⟩

/-- One command or another. -/
theorem Command.Fixed.ite {p : Prop} [Decidable p] {c d : Command} (hc : c.Fixed w)
    (hd : d.Fixed w) : (if p then c else d).Fixed w := by
  split
  · exact hc
  · exact hd

/-- What an order asks of the mesh is as high at every scroll. -/
theorem Order.fixed_command (o : Order) {reply : FetchResult}
    (h : reply.ok = true → w.Fixed reply.page) : (o.command reply).Fixed w := by
  unfold Order.command
  -- only `enter` asks the mesh
  iterate 9 refine .ite trivial ?_
  refine .ite h ?_
  iterate 2 refine .ite trivial ?_
  trivial

/-- A mesh that does not answer. -/
def noMesh (_ : Nat) : FetchResult := timeout

end Thicket.Desktop
