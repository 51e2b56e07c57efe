import Thicket.Base.SerialWire
import Thicket.Lcd.Display

/-! # The display on three pins

`SoftSpiBus` in `src/display_bringup.cpp` shifts the driver's bytes out over three output pins. A
panel behind a serial receiver on those pins sees the same bus: every session of the driver leaves
it as it would be on the bus itself. -/

namespace Thicket.Lcd

open SerialWire Runs

/-! ## The sender -/

/-- The inner loop of `SoftSpiBus::write`: the highest bit first, then the byte is shifted. -/
def shiftOut : Nat → UInt8 → List Drive
  | 0, _ => []
  | bit + 1, b =>
      (.data, b &&& 0x80 != 0) :: (.clock, true) :: (.clock, false) :: shiftOut bit (b <<< 1)

/-- **`SoftSpiBus`**: what a call drives. `LCD_PIN_CS` is active high. -/
def softSpi : BusCall → List Drive
  | .select on => [(.select, on)]
  | .write data => data.flatMap (shiftOut 8)

/-- The bits that are shifted out. -/
def topBits : Nat → UInt8 → List Bool
  | 0, _ => []
  | n + 1, b => (b &&& 0x80 != 0) :: topBits n (b <<< 1)

/-- A byte is clocked out bit by bit. -/
theorem shiftOut_eq (n : Nat) (b : UInt8) : shiftOut n b = clockOut (topBits n b) := by
  induction n generalizing b with
  | zero => rfl
  | succ n ih =>
    rw [shiftOut, ih]
    rfl

@[simp] theorem length_topBits (n : Nat) (b : UInt8) : (topBits n b).length = n := by
  induction n generalizing b with
  | zero => rfl
  | succ n ih => simp [topBits, ih]

/-! ## The receiver -/

/-- A byte, its highest bit first. -/
def byteOf (bits : List Bool) : UInt8 := bits.foldl (fun b bit => (b <<< 1) ||| bit.toUInt8) 0

/-- Eight bits are the byte. -/
theorem byteOf_topBits (b : UInt8) : byteOf (topBits 8 b) = b := by
  have hall : ∀ n : Fin 256, byteOf (topBits 8 (UInt8.ofNat n)) = UInt8.ofNat n := by
    decide +kernel
  simpa using hall ⟨b.toNat, b.toNat_lt⟩

/-- The panel behind the receiver. -/
def panelOnWire : Listener UInt8 VirtualPanel where
  bits := 8
  word := byteOf
  select := VirtualPanel.select
  take p b := p.write [b]

/-- A call on the bus, on the wires. -/
def wire (r : Receiver VirtualPanel) (calls : List BusCall) : Receiver VirtualPanel :=
  run (drive panelOnWire) r (calls.flatMap softSpi)

/-- A full buffer takes nothing more. -/
theorem writeBytes_of_full {p : VirtualPanel} (hfull : p.tx.length ≥ txMax)
    (hover : p.overflowed = true) (data : List UInt8) : p.writeBytes data = p := by
  cases data with
  | nil => rfl
  | cons b bs =>
    rw [VirtualPanel.writeBytes, if_pos hfull]
    cases p
    cases hover
    rfl

/-- **Writing some bytes is writing one after the other.** -/
theorem foldl_write (p : VirtualPanel) (data : List UInt8) :
    data.foldl (fun p b => p.write [b]) p = p.write data := by
  induction data generalizing p with
  | nil =>
    rw [VirtualPanel.write]
    exact (ite_self p).symm
  | cons b bs ih =>
    rw [List.foldl_cons, ih]
    cases hsel : p.selected with
    | false => simp [VirtualPanel.write, hsel]
    | true =>
      by_cases hfull : p.tx.length ≥ txMax
      · -- the byte that does not fit is dropped, and so are the others
        have hdropped := writeBytes_of_full (p := { p with overflowed := true }) hfull rfl bs
        rw [hsel] at hdropped
        simp [VirtualPanel.write, VirtualPanel.writeBytes, hsel, hfull, hdropped]
      · simp [VirtualPanel.write, VirtualPanel.writeBytes, hsel, hfull]

variable {r : Receiver VirtualPanel} {p : VirtualPanel}

/-- One write on the wires. -/
theorem resting_write (h : Resting r true p) (data : List UInt8) :
    Resting (wire r [.write data]) true (p.write data) := by
  have hdrives : [BusCall.write data].flatMap softSpi
      = (data.map (topBits 8)).flatMap clockOut := by
    rw [List.flatMap_singleton, softSpi, List.flatMap_map]
    exact List.flatMap_congr fun b _ => shiftOut_eq 8 b
  have hlengths : ∀ bs ∈ data.map (topBits 8), bs.length = panelOnWire.bits := by
    simp [panelOnWire]
  have hwords := h.run_words (by decide) hlengths
  rw [List.foldl_map] at hwords
  rw [wire, hdrives, ← foldl_write]
  simpa only [panelOnWire, byteOf_topBits] using hwords

/-- Writes on the wires. -/
theorem resting_writes {calls : List BusCall} (h : Resting r true p)
    (hcalls : VirtualPanel.OnlyWrites calls) :
    Resting (wire r calls) true (calls.foldl VirtualPanel.call p) := by
  induction calls generalizing r p with
  | nil => exact h
  | cons c calls ih =>
    obtain ⟨data, rfl⟩ := hcalls c List.mem_cons_self
    have hrest := ih (resting_write h data) fun c hc => hcalls c (List.mem_cons_of_mem _ hc)
    have happend : wire r (.write data :: calls) = wire (wire r [.write data]) calls := by
      simp [wire]
    rw [happend]
    exact hrest

/-- **A transaction on the wires** is the transaction on the bus. -/
theorem resting_transaction {calls : List BusCall} (h : Resting r false p)
    (hcalls : VirtualPanel.OnlyWrites calls) :
    Resting (wire r ((BusCall.select true :: calls) ++ [BusCall.select false])) false
      (((BusCall.select true :: calls) ++ [BusCall.select false]).foldl VirtualPanel.call p) := by
  have hopen : Resting (drive panelOnWire r (.select, true)) true (p.select true) := h.drive_select
  have hclose : Resting (drive panelOnWire
      (wire (drive panelOnWire r (.select, true)) calls) (.select, false)) false _ :=
    (resting_writes hopen hcalls).drive_select
  have hsplit : wire r ((BusCall.select true :: calls) ++ [BusCall.select false])
      = drive panelOnWire (wire (drive panelOnWire r (.select, true)) calls) (.select, false) := by
    simp [wire, softSpi]
  rw [hsplit, List.foldl_append]
  exact hclose

/-! ## Sessions -/

/-- **What an operation of the driver does**: its calls on the bus, and the driver after; `none`
when it does not return. -/
def LcdOp.run (F : Fonts) (s : SharpLcd) : LcdOp → Option (List BusCall × SharpLcd)
  | .setPixel x y black => some ([], s.setPixel x y black)
  | .fillRect x y w h black => (s.fillRect x y w h black).map ([], ·)
  | .fillDither x y w h level => (s.fillDither x y w h level).map ([], ·)
  | .drawHline x y w black => (s.drawHline x y w black).map ([], ·)
  | .drawText x y text black => some ([], (s.drawText F x y text black).2)
  | .drawTextScaled x y text black scale => some ([], (s.drawTextScaled F x y text black scale).2)
  | .drawTextBig x y text black => some ([], (s.drawTextBig F x y text black).2)
  | .drawTextBold x y text face black => some ([], (s.drawTextBold F x y text face black).2)
  | .fillWhite => some ([], s.fillWhite)
  | .clear => some s.clear
  | .toggleVcom => some s.toggleVcom
  | .flush => some s.flush

/-- The panel on the bus gets these calls. -/
theorem exec_eq_run (F : Fonts) (d : Display) (op : LcdOp) :
    d.exec F op = (op.run F d.lcd).map d.transact := by
  cases op with
  | fillRect x y w h black => rw [Display.exec, LcdOp.run, Option.map_map]; rfl
  | fillDither x y w h level => rw [Display.exec, LcdOp.run, Option.map_map]; rfl
  | drawHline x y w black => rw [Display.exec, LcdOp.run, Option.map_map]; rfl
  | _ => rfl

/-- One transaction, or nothing. -/
def Framed (calls : List BusCall) : Prop :=
  calls = [] ∨ ∃ writes, VirtualPanel.OnlyWrites writes ∧
    calls = (BusCall.select true :: writes) ++ [BusCall.select false]

/-- **An operation is one transaction at most.** -/
theorem framed_run {F : Fonts} {s : SharpLcd} {op : LcdOp} {calls : List BusCall} {s' : SharpLcd}
    (h : op.run F s = some (calls, s')) : Framed calls := by
  cases op with
  | clear =>
    obtain rfl := (Prod.ext_iff.mp (Option.some.inj h)).1
    exact .inr ⟨_, Display.onlyWrites_single _, rfl⟩
  | toggleVcom =>
    obtain rfl := (Prod.ext_iff.mp (Option.some.inj h)).1
    exact .inr ⟨_, Display.onlyWrites_single _, rfl⟩
  | flush =>
    obtain rfl := (Prod.ext_iff.mp (Option.some.inj h)).1
    by_cases hclean : s.dirtyLines = 0
    · rw [SharpLcd.flush, if_pos hclean]
      exact .inl rfl
    · rw [Display.flush_eq hclean]
      exact .inr ⟨_, Display.onlyWrites_flush s _, rfl⟩
  | fillRect x y w h' black =>
    obtain ⟨t, -, ht⟩ := Option.map_eq_some_iff.mp h
    exact .inl (Prod.ext_iff.mp ht).1.symm
  | fillDither x y w h' level =>
    obtain ⟨t, -, ht⟩ := Option.map_eq_some_iff.mp h
    exact .inl (Prod.ext_iff.mp ht).1.symm
  | drawHline x y w black =>
    obtain ⟨t, -, ht⟩ := Option.map_eq_some_iff.mp h
    exact .inl (Prod.ext_iff.mp ht).1.symm
  | _ => exact .inl (Prod.ext_iff.mp (Option.some.inj h)).1.symm

/-- A driver with its panel on three pins. -/
structure WiredDisplay where
  /-- The driver. -/
  lcd : SharpLcd
  /-- The panel, behind the pins. -/
  receiver : Receiver VirtualPanel

namespace WiredDisplay

/-- The driver has made a list of calls, which go out over the pins. -/
def transact (d : WiredDisplay) (r : List BusCall × SharpLcd) : WiredDisplay :=
  ⟨r.2, wire d.receiver r.1⟩

/-- One operation; `none` when it does not return. -/
def exec (F : Fonts) (d : WiredDisplay) (op : LcdOp) : Option WiredDisplay :=
  (op.run F d.lcd).map d.transact

/-- A list of operations, each of which returns. -/
def execAll (F : Fonts) (d : WiredDisplay) (ops : List LcdOp) : Option WiredDisplay :=
  ops.foldlM (exec F) d

/-- All pins low, over whatever the framebuffer held. -/
def powerUp (fb : Image) : WiredDisplay := ⟨{ fb := fb }, ⟨{}, false, false, false, []⟩⟩

/-- **The same display**, on the pins and on the bus. -/
structure Same (w : WiredDisplay) (d : Display) : Prop where
  /-- The drivers agree. -/
  lcd_eq : w.lcd = d.lcd
  /-- No transaction is under way, and the panel is the other one. -/
  resting : Resting w.receiver false d.panel

/-- After one operation. -/
theorem Same.exec {F : Fonts} {w : WiredDisplay} {d : Display} (h : Same w d) (op : LcdOp) :
    Option.Rel Same (w.exec F op) (d.exec F op) := by
  rw [exec_eq_run, WiredDisplay.exec, h.lcd_eq]
  cases hrun : op.run F d.lcd with
  | none => exact .none
  | some r =>
    obtain ⟨calls, s⟩ := r
    refine .some ⟨rfl, ?_⟩
    obtain rfl | ⟨writes, hwrites, rfl⟩ := framed_run hrun
    · exact h.resting
    · exact resting_transaction h.resting hwrites

/-- **The pins carry every session**: whatever is drawn and sent, the display on the pins returns
when the one on the bus does, and is the same. -/
theorem Same.execAll {F : Fonts} {w : WiredDisplay} {d : Display} (h : Same w d)
    (ops : List LcdOp) : Option.Rel Same (w.execAll F ops) (d.execAll F ops) := by
  induction ops generalizing w d with
  | nil => exact .some h
  | cons op ops ih =>
    rw [WiredDisplay.execAll, Display.execAll, List.foldlM_cons, List.foldlM_cons]
    have hone := h.exec (F := F) op
    revert hone
    generalize w.exec F op = w'
    generalize d.exec F op = d'
    rintro (hsame | _)
    · exact ih hsame
    · exact .none

end WiredDisplay

end Thicket.Lcd
