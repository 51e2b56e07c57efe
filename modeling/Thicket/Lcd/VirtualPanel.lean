import Thicket.Lcd.SharpLcd

/-! # The panel on the other end of the bus

`lib/SharpLcd/src/VirtualPanel.{h,cpp}`: the stand-in for the panel collects the bytes of a
transaction and decodes them into its own image when the transaction ends. -/

namespace Thicket.Lcd

/-- `TX_MAX`: a full-screen flush is mode, 240 lines of address, data and gap, and a trailer. -/
def txMax : Nat := 1 + lcdHeight * (1 + lcdLineBytes + 1) + 1

/-- The panel. -/
structure VirtualPanel where
  /-- `_img`: powers up white. -/
  img : Image := fun _ => 0xFF
  /-- `_tx`, the first `_tx_len` bytes of it. -/
  tx : List UInt8 := []
  /-- `_selected`. -/
  selected : Bool := false
  /-- `_vcom`. -/
  vcom : Bool := false
  /-- `_lines_written`. -/
  linesWritten : UInt32 := 0
  /-- `_clears`. -/
  clears : UInt32 := 0
  /-- `_vcom_toggles`. -/
  vcomToggles : UInt32 := 0
  /-- `_overflowed`. -/
  overflowed : Bool := false

namespace VirtualPanel

/-- The body of `write` for each byte; the byte that does not fit ends the call. -/
def writeBytes (p : VirtualPanel) : List UInt8 → VirtualPanel
  | [] => p
  | b :: bs =>
      if p.tx.length ≥ txMax then { p with overflowed := true }
      else writeBytes { p with tx := p.tx ++ [b] } bs

/-- `write`: ignored while not selected. -/
def write (p : VirtualPanel) (data : List UInt8) : VirtualPanel :=
  if p.selected then p.writeBytes data else p

/-- `memcpy` of a line's data into an image. -/
def copyLine (img : Image) (y : Line) (data : List UInt8) : Image := fun i =>
  if y * lcdLineBytes ≤ i.val ∧ i.val < y * lcdLineBytes + lcdLineBytes then
    data.getD (i.val - y * lcdLineBytes) 0
  else img i

/-- One line of an update: an address off the panel is skipped. -/
def applyLine (p : VirtualPanel) (addr : UInt8) (data : List UInt8) : VirtualPanel :=
  let line := (reverseBits addr).toNat
  if h : 1 ≤ line ∧ line ≤ lcdHeight then
    { p with
      img := copyLine p.img ⟨line - 1, Nat.sub_lt_of_pos_le Nat.one_pos h.1 |>.trans_le h.2⟩ data
      linesWritten := p.linesWritten + 1 }
  else p

/-- The lines of an update, as long as more than a line's address and data are left. -/
def applyLines (p : VirtualPanel) (bytes : List UInt8) : VirtualPanel :=
  if _h : bytes.length > 1 + lcdLineBytes then
    applyLines (p.applyLine (bytes.headD 0) (bytes.tail.take lcdLineBytes))
      (bytes.drop (1 + lcdLineBytes + 1))
  else p
termination_by bytes.length
decreasing_by
  rw [List.length_drop]
  omega

/-- The VCOM flag a mode byte carries is taken over. -/
def noteVcom (p : VirtualPanel) (wantVcom : Bool) : VirtualPanel :=
  if wantVcom != p.vcom then { p with vcom := wantVcom, vcomToggles := p.vcomToggles + 1 } else p

@[simp] theorem noteVcom_vcom (p : VirtualPanel) (v : Bool) : (p.noteVcom v).vcom = v := by
  unfold noteVcom
  cases v <;> cases hp : p.vcom <;> simp [hp]

@[simp] theorem noteVcom_img (p : VirtualPanel) (v : Bool) : (p.noteVcom v).img = p.img := by
  unfold noteVcom
  split <;> rfl

@[simp] theorem noteVcom_overflowed (p : VirtualPanel) (v : Bool) :
    (p.noteVcom v).overflowed = p.overflowed := by
  unfold noteVcom
  split <;> rfl

/-- **`apply_transaction`**: the VCOM bit of the mode byte always counts, then all-clear, then a
data update; any other mode leaves the image. -/
def applyTransaction (p : VirtualPanel) : VirtualPanel :=
  match p.tx with
  | [] => p
  | mode :: rest =>
      let q := p.noteVcom (mode &&& lcdM1Vcom != 0)
      if mode &&& lcdM2Clear != 0 then { q with img := fun _ => 0xFF, clears := q.clears + 1 }
      else if mode &&& lcdM0Write == 0 then q
      else q.applyLines rest

/-- `select`: a transaction starts, or ends and is applied. -/
def select (p : VirtualPanel) (on : Bool) : VirtualPanel :=
  if on then { p with selected := true, tx := [] }
  else { ({ p with selected := false } : VirtualPanel).applyTransaction with tx := [] }

/-- One call of the driver. -/
def call (p : VirtualPanel) : BusCall → VirtualPanel
  | .select on => p.select on
  | .write data => p.write data

/-- `pixel`: `true` for black. -/
def pixel (p : VirtualPanel) (x y : UInt16) : Bool := p.img.pixel x y

/-- Bytes that fit are all kept. -/
theorem writeBytes_of_fits {p : VirtualPanel} {data : List UInt8}
    (h : p.tx.length + data.length ≤ txMax) :
    p.writeBytes data = { p with tx := p.tx ++ data } := by
  induction data generalizing p with
  | nil => simp [writeBytes]
  | cons b bs ih =>
    simp only [List.length_cons] at h
    rw [writeBytes, if_neg (by omega), ih (by simp only [List.length_append, List.length_singleton]
                                              omega)]
    simp

/-- The bytes of a list of writes. -/
def written : List BusCall → List UInt8
  | [] => []
  | .write data :: calls => data ++ written calls
  | .select _ :: calls => written calls

/-- Whether a list of calls only writes. -/
def OnlyWrites (calls : List BusCall) : Prop := ∀ c ∈ calls, ∃ data, c = .write data

/-- Writes to a selected panel add up in its buffer. -/
theorem foldl_writes {calls : List BusCall} (hw : OnlyWrites calls) {p : VirtualPanel}
    (hsel : p.selected = true) (hfits : p.tx.length + (written calls).length ≤ txMax) :
    calls.foldl call p = { p with tx := p.tx ++ written calls } := by
  induction calls generalizing p with
  | nil => simp [written]
  | cons c cs ih =>
    obtain ⟨data, rfl⟩ := hw c (by simp)
    simp only [written, List.length_append] at hfits
    rw [List.foldl_cons, call, write, if_pos hsel, writeBytes_of_fits (by omega),
      ih (p := { p with tx := p.tx ++ data }) (fun c hc => hw c (by simp [hc])) hsel
        (by simp only [List.length_append]; omega)]
    simp [written]

/-- **A transaction.** Writes between `select(true)` and `select(false)` that fit the buffer are
decoded as one byte string. -/
theorem foldl_transaction {calls : List BusCall} (hw : OnlyWrites calls)
    (hfits : (written calls).length ≤ txMax) (p : VirtualPanel) :
    ((BusCall.select true :: calls) ++ [BusCall.select false]).foldl call p
      = { ({ p with selected := false, tx := written calls } : VirtualPanel).applyTransaction
          with tx := [] } := by
  have hstart := foldl_writes hw (p := p.select true) rfl (by simpa [select] using hfits)
  have hopen : List.foldl call p (BusCall.select true :: calls)
      = { p.select true with tx := (p.select true).tx ++ written calls } := hstart
  rw [List.foldl_append, hopen]
  simp [call, select]

end VirtualPanel

end Thicket.Lcd
