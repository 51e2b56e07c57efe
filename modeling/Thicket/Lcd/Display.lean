import Mathlib.Data.List.FinRange
import Thicket.Lcd.Mirror

/-! # Driver and panel over whole sessions

The three transactions, decoded: a flush copies the marked lines, `toggle_vcom` leaves the image,
`clear` whitens it. With the drawing operations they keep the mirror from the first `fill_white` or
`clear` on, and the link (same VCOM, no overflow) from the start. -/

namespace Thicket.Lcd

open VirtualPanel

/-! ## Decoding a flush -/

/-- `reverse_bits` undoes itself. -/
theorem reverseBits_reverseBits (v : UInt8) : reverseBits (reverseBits v) = v := by
  have hall : ∀ n : Fin 256, reverseBits (reverseBits (UInt8.ofNat n)) = UInt8.ofNat n := by
    decide +kernel
  simpa using hall ⟨v.toNat, v.toNat_lt⟩

/-- The address of a line leads back to it. -/
theorem reverseBits_lineAddress (y : Line) : (reverseBits (lineAddress (y + 1))).toNat = y + 1 := by
  have hy := y.2
  unfold lcdHeight at hy
  rw [lineAddress, reverseBits_reverseBits, UInt8.toNat_ofNat']
  omega

/-- **A line is put back where it came from.** -/
theorem applyLine_lineAddress (p : VirtualPanel) (y : Line) (data : List UInt8) :
    p.applyLine (lineAddress (y + 1)) data
      = { p with img := copyLine p.img y data, linesWritten := p.linesWritten + 1 } := by
  have hy : 1 ≤ y.val + 1 ∧ y.val + 1 ≤ lcdHeight := ⟨Nat.le_add_left 1 _, y.2⟩
  simp [applyLine, reverseBits_lineAddress, hy]

/-- What a copied line changes. -/
theorem copyLine_byteIndex (img : Image) (y z : Line) (data : List UInt8) (k : Fin lcdLineBytes) :
    copyLine img y data (byteIndex z k)
      = if z = y then data.getD k 0 else img (byteIndex z k) := by
  have hk : k.val < 50 := k.2
  have hval : (byteIndex z k).val = z.val * lcdLineBytes + k.val := rfl
  have hiff : y.val * lcdLineBytes ≤ (byteIndex z k).val ∧
      (byteIndex z k).val < y.val * lcdLineBytes + lcdLineBytes ↔ z = y := by
    rw [hval, Fin.ext_iff]
    simp only [lcdLineBytes]
    omega
  unfold copyLine
  rw [if_congr hiff rfl rfl]
  split
  next hzy => rw [hval, hzy, Nat.add_sub_cancel_left]
  next => rfl

/-- A line has fifty bytes. -/
@[simp] theorem length_line (img : Image) (y : Line) : (img.line y).length = lcdLineBytes := by
  simp [Image.line]

/-- The bytes of a line are the image's. -/
theorem getD_line (img : Image) (y : Line) (k : Fin lcdLineBytes) :
    (img.line y).getD k 0 = img (byteIndex y k) := by
  simp [Image.line, List.getD_eq_getElem?_getD]

/-- The bytes of one line of a flush. -/
def frame (img : Image) (y : Line) : List UInt8 := lineAddress (y + 1) :: img.line y ++ [0x00]

/-- **The decoder reads the frames of a flush**, one after the other, and stops at the trailer. -/
theorem applyLines_frames (img : Image) (lines : List Line) (p : VirtualPanel) :
    p.applyLines (lines.flatMap (frame img) ++ [0x00])
      = lines.foldl (fun p y => p.applyLine (lineAddress (y + 1)) (img.line y)) p := by
  induction lines generalizing p with
  | nil =>
    rw [applyLines, dif_neg (by simp)]
    rfl
  | cons y ys ih =>
    have hlen : (frame img y ++ (ys.flatMap (frame img) ++ [0x00])).length > 1 + lcdLineBytes := by
      simp only [frame, List.length_append, List.length_cons, length_line]
      omega
    have htake : (img.line y ++ 0x00 :: (ys.flatMap (frame img) ++ [0x00])).take lcdLineBytes
        = img.line y := List.take_left' (length_line img y)
    have hdrop : (frame img y ++ (ys.flatMap (frame img) ++ [0x00])).drop (1 + lcdLineBytes + 1)
        = ys.flatMap (frame img) ++ [0x00] :=
      List.drop_left' (by simp only [frame, List.length_append, List.length_cons, length_line,
        List.length_nil]; omega)
    rw [List.flatMap_cons, List.append_assoc, applyLines, dif_pos hlen, hdrop, ih]
    simp only [frame, List.cons_append, List.headD_cons, List.tail_cons, List.append_assoc,
      List.nil_append, htake, List.foldl_cons]

/-- **What the frames of a flush leave in the image**: the lines they carry, and the rest as it
was. -/
theorem foldl_applyLine (img : Image) (lines : List Line) (p : VirtualPanel) :
    (∀ z k, (lines.foldl (fun p y => p.applyLine (lineAddress (y + 1)) (img.line y)) p).img
        (byteIndex z k) = if z ∈ lines then img (byteIndex z k) else p.img (byteIndex z k)) ∧
    (lines.foldl (fun p y => p.applyLine (lineAddress (y + 1)) (img.line y)) p).vcom = p.vcom ∧
    (lines.foldl (fun p y => p.applyLine (lineAddress (y + 1)) (img.line y)) p).overflowed
      = p.overflowed := by
  induction lines generalizing p with
  | nil => exact ⟨fun z k => by simp, rfl, rfl⟩
  | cons y ys ih =>
    obtain ⟨himg, hvcom, hover⟩ := ih (p.applyLine (lineAddress (y + 1)) (img.line y))
    rw [applyLine_lineAddress] at himg hvcom hover
    rw [List.foldl_cons, applyLine_lineAddress]
    refine ⟨fun z k => ?_, hvcom, hover⟩
    rw [himg]
    dsimp only
    rw [copyLine_byteIndex, getD_line]
    by_cases hzy : z = y <;> by_cases hz : z ∈ ys <;> simp [hzy, hz]

/-! ## Transactions, decoded -/

/-- What a transaction leaves of the panel's VCOM and of its overflow latch. -/
structure Carries (p q : VirtualPanel) (vcom : Bool) : Prop where
  /-- The VCOM flag is the one sent. -/
  vcom_eq : q.vcom = vcom
  /-- The latch is as it was. -/
  overflowed_eq : q.overflowed = p.overflowed

/-- The bytes of writes, one list of calls after another. -/
theorem written_append (cs ds : List BusCall) : written (cs ++ ds) = written cs ++ written ds := by
  induction cs with
  | nil => rfl
  | cons c cs ih => cases c <;> simp [written, ih]

/-- A flush writes one frame for each line. -/
theorem written_lineCalls (s : SharpLcd) (lines : List Line) :
    written (lines.flatMap s.lineCalls) = lines.flatMap (frame s.fb) := by
  induction lines with
  | nil => rfl
  | cons y ys ih =>
    rw [List.flatMap_cons, written_append, ih, List.flatMap_cons]
    simp [SharpLcd.lineCalls, written, frame]

/-- A flush makes write calls between its two selects. -/
theorem onlyWrites_lineCalls (s : SharpLcd) (lines : List Line) :
    OnlyWrites (lines.flatMap s.lineCalls) := by
  intro c hc
  obtain ⟨y, -, hy⟩ := List.mem_flatMap.mp hc
  simp only [SharpLcd.lineCalls, List.mem_cons, List.not_mem_nil, or_false] at hy
  obtain rfl | rfl | rfl := hy <;> exact ⟨_, rfl⟩

/-- The frames of the lines of a panel fit its buffer. -/
theorem length_frames (img : Image) (lines : List Line) :
    (lines.flatMap (frame img)).length = lines.length * 52 := by
  induction lines with
  | nil => rfl
  | cons y ys ih =>
    simp only [List.flatMap_cons, List.length_append, ih, frame, List.length_cons, length_line,
      List.length_nil, lcdLineBytes]
    omega

/-- The VCOM bit of a mode byte. -/
def vcomBit (v : Bool) : UInt8 := if v then lcdM1Vcom else 0

/-- **An update transaction**: the lines of its frames, the VCOM of its mode byte. -/
theorem applyTransaction_update (img : Image) (lines : List Line) (v : Bool) (p : VirtualPanel)
    (htx : p.tx = (lcdM0Write ||| vcomBit v) :: (lines.flatMap (frame img) ++ [0x00])) :
    Carries p p.applyTransaction v ∧
      ∀ z k, p.applyTransaction.img (byteIndex z k)
        = if z ∈ lines then img (byteIndex z k) else p.img (byteIndex z k) := by
  have hvcom : ((lcdM0Write ||| vcomBit v) &&& lcdM1Vcom != 0) = v := by cases v <;> decide
  have hclear : ((lcdM0Write ||| vcomBit v) &&& lcdM2Clear != 0) = false := by cases v <;> decide
  have hwrite : ((lcdM0Write ||| vcomBit v) &&& lcdM0Write == 0) = false := by cases v <;> decide
  have happly : p.applyTransaction
      = (p.noteVcom v).applyLines (lines.flatMap (frame img) ++ [0x00]) := by
    unfold applyTransaction
    rw [htx]
    simp only [hvcom, hclear, hwrite, Bool.false_eq_true, if_false]
  obtain ⟨himg, hv, hover⟩ := foldl_applyLine img lines (p.noteVcom v)
  rw [happly, applyLines_frames]
  exact ⟨⟨by simpa using hv, by simpa using hover⟩, fun z k => by simpa using himg z k⟩

/-- **A display-mode transaction**: VCOM only. -/
theorem applyTransaction_mode (v : Bool) (p : VirtualPanel) (htx : p.tx = [vcomBit v, 0x00]) :
    Carries p p.applyTransaction v ∧ p.applyTransaction.img = p.img := by
  have hvcom : (vcomBit v &&& lcdM1Vcom != 0) = v := by cases v <;> decide
  have hclear : (vcomBit v &&& lcdM2Clear != 0) = false := by cases v <;> decide
  have hwrite : (vcomBit v &&& lcdM0Write == 0) = true := by cases v <;> decide
  have happly : p.applyTransaction = p.noteVcom v := by
    unfold applyTransaction
    rw [htx]
    simp only [hvcom, hclear, hwrite, Bool.false_eq_true, if_false, if_true]
  rw [happly]
  exact ⟨⟨noteVcom_vcom p v, noteVcom_overflowed p v⟩, noteVcom_img p v⟩

/-- **An all-clear transaction**: the image is white. -/
theorem applyTransaction_clear (v : Bool) (p : VirtualPanel)
    (htx : p.tx = [lcdM2Clear ||| vcomBit v, 0x00]) :
    Carries p p.applyTransaction v ∧ p.applyTransaction.img = fun _ => 0xFF := by
  have hvcom : ((lcdM2Clear ||| vcomBit v) &&& lcdM1Vcom != 0) = v := by cases v <;> decide
  have hclear : ((lcdM2Clear ||| vcomBit v) &&& lcdM2Clear != 0) = true := by cases v <;> decide
  have happly : p.applyTransaction = { p.noteVcom v with
      img := fun _ => 0xFF, clears := (p.noteVcom v).clears + 1 } := by
    unfold applyTransaction
    rw [htx]
    simp only [hvcom, hclear, if_true]
  rw [happly]
  exact ⟨⟨noteVcom_vcom p v, noteVcom_overflowed p v⟩, rfl⟩

/-! ## The display -/

/-- A driver and the panel on its bus. -/
structure Display where
  /-- The driver. -/
  lcd : SharpLcd
  /-- The panel. -/
  panel : VirtualPanel

/-- What the firmware can ask of the driver. -/
inductive LcdOp where
  /-- `set_pixel`. -/
  | setPixel (x y : UInt16) (black : Bool)
  /-- `fill_rect`. -/
  | fillRect (x y w h : UInt16) (black : Bool)
  /-- `fill_dither`. -/
  | fillDither (x y w h : UInt16) (level : UInt8)
  /-- `draw_hline`. -/
  | drawHline (x y w : UInt16) (black : Bool)
  /-- `draw_text`. -/
  | drawText (x y : UInt16) (text : List UInt8) (black : Bool)
  /-- `draw_text_scaled`. -/
  | drawTextScaled (x y : UInt16) (text : List UInt8) (black : Bool) (scale : UInt8)
  /-- `draw_text_big`. -/
  | drawTextBig (x y : UInt16) (text : List UInt8) (black : Bool)
  /-- `draw_text_bold`. -/
  | drawTextBold (x y : UInt16) (text : List UInt8) (face : BoldFace) (black : Bool)
  /-- `fill_white`. -/
  | fillWhite
  /-- `clear`. -/
  | clear
  /-- `toggle_vcom`. -/
  | toggleVcom
  /-- `flush`. -/
  | flush
  deriving DecidableEq

/-- The operations that only draw. -/
def LcdOp.draws : LcdOp → Bool
  | .fillWhite | .clear | .toggleVcom | .flush => false
  | _ => true

/-- The operations from which on the panel mirrors the framebuffer. -/
def LcdOp.initializes : LcdOp → Bool
  | .fillWhite | .clear => true
  | _ => false

/-- The operations after which panel and framebuffer are the same. -/
def LcdOp.synchronizes : LcdOp → Bool
  | .clear | .flush => true
  | _ => false

namespace Display

/-- The driver has made a list of calls on the bus. -/
def transact (d : Display) (r : List BusCall × SharpLcd) : Display :=
  ⟨r.2, r.1.foldl VirtualPanel.call d.panel⟩

/-- The driver has drawn. -/
def draw (d : Display) (s : SharpLcd) : Display := { d with lcd := s }

/-- One operation; `none` when it does not return. -/
def exec (F : Fonts) (d : Display) : LcdOp → Option Display
  | .setPixel x y black => some (d.draw (d.lcd.setPixel x y black))
  | .fillRect x y w h black => (d.lcd.fillRect x y w h black).map d.draw
  | .fillDither x y w h level => (d.lcd.fillDither x y w h level).map d.draw
  | .drawHline x y w black => (d.lcd.drawHline x y w black).map d.draw
  | .drawText x y text black => some (d.draw (d.lcd.drawText F x y text black).2)
  | .drawTextScaled x y text black scale =>
      some (d.draw (d.lcd.drawTextScaled F x y text black scale).2)
  | .drawTextBig x y text black => some (d.draw (d.lcd.drawTextBig F x y text black).2)
  | .drawTextBold x y text face black => some (d.draw (d.lcd.drawTextBold F x y text face black).2)
  | .fillWhite => some (d.draw d.lcd.fillWhite)
  | .clear => some (d.transact d.lcd.clear)
  | .toggleVcom => some (d.transact d.lcd.toggleVcom)
  | .flush => some (d.transact d.lcd.flush)

/-- A list of operations, each of which returns. -/
def execAll (F : Fonts) (d : Display) (ops : List LcdOp) : Option Display := ops.foldlM (exec F) d

/-- A driver over whatever the framebuffer held, and a panel that has just powered up. -/
def powerUp (fb : Image) : Display := ⟨{ fb := fb }, {}⟩

/-- Driver and panel agree about VCOM, and no transaction has overflowed. -/
structure Linked (d : Display) : Prop where
  /-- The panel's VCOM flag is the driver's. -/
  vcom_eq : d.panel.vcom = d.lcd.vcom
  /-- Every byte of every transaction was kept. -/
  not_overflowed : d.panel.overflowed = false

/-- Framebuffer and image are the same. -/
def InSync (d : Display) : Prop := d.lcd.fb = d.panel.img

/-- The image mirrors the framebuffer where no line is marked. -/
def Mirrored (d : Display) : Prop := Mirrors d.panel.img d.lcd

/-- Only a panel in sync shows what the driver reads back. -/
theorem InSync.getPixel_eq {d : Display} (h : InSync d) (x y : UInt16) :
    d.lcd.getPixel x y = d.panel.pixel x y := by
  rw [SharpLcd.getPixel, VirtualPanel.pixel, h]

/-- A mirror without marked lines is in sync. -/
theorem Mirrored.inSync {d : Display} (h : Mirrored d) (hclean : ∀ y, d.lcd.isDirty y = false) :
    InSync d := by
  funext i
  obtain ⟨y, k, rfl⟩ := exists_byteIndex i
  exact h y (hclean y) k

/-! ## One operation -/

/-- The panel's side of a transaction of a linked display. -/
theorem Linked.transact {d : Display} (h : Linked d) (lcd : SharpLcd) {calls : List BusCall}
    (hcalls : OnlyWrites calls) (hfits : (written calls).length ≤ txMax)
    (hcarries : ∀ p : VirtualPanel, p.tx = written calls → Carries p p.applyTransaction lcd.vcom) :
    Linked (d.transact ((.select true :: calls) ++ [.select false], lcd)) := by
  have hc := hcarries { d.panel with selected := false, tx := written calls } rfl
  constructor
  · rw [Display.transact, foldl_transaction hcalls hfits]
    exact hc.vcom_eq
  · rw [Display.transact, foldl_transaction hcalls hfits]
    exact hc.overflowed_eq.trans h.not_overflowed

/-- A flush that has something to send, as one transaction. -/
theorem flush_eq {s : SharpLcd} (h : s.dirtyLines ≠ 0) : s.flush =
    ((.select true :: (.write [lcdM0Write ||| vcomBit s.vcom] ::
      ((List.finRange lcdHeight).filter s.isDirty).flatMap s.lineCalls ++ [.write [0x00]]))
      ++ [.select false], { s with dirty := fun _ => 0 }) := by
  rw [SharpLcd.flush, if_neg h]
  simp [vcomBit]

/-- The writes of a flush. -/
theorem written_flush (s : SharpLcd) (lines : List Line) :
    written (.write [lcdM0Write ||| vcomBit s.vcom] :: lines.flatMap s.lineCalls
      ++ [.write [0x00]])
      = (lcdM0Write ||| vcomBit s.vcom) :: (lines.flatMap (frame s.fb) ++ [0x00]) := by
  rw [List.cons_append, written, written_append, written_lineCalls]
  rfl

/-- The writes of a flush are writes. -/
theorem onlyWrites_flush (s : SharpLcd) (lines : List Line) :
    OnlyWrites (.write [lcdM0Write ||| vcomBit s.vcom] :: lines.flatMap s.lineCalls
      ++ [.write [0x00]]) := by
  intro c hc
  simp only [List.cons_append, List.mem_cons, List.mem_append, List.not_mem_nil, or_false] at hc
  obtain rfl | hc | rfl := hc
  · exact ⟨_, rfl⟩
  · exact onlyWrites_lineCalls s lines c hc
  · exact ⟨_, rfl⟩

/-- A flush of any lines of the panel fits its buffer. -/
theorem length_written_flush (s : SharpLcd) :
    (written (.write [lcdM0Write ||| vcomBit s.vcom] ::
      ((List.finRange lcdHeight).filter s.isDirty).flatMap s.lineCalls ++ [.write [0x00]])).length
      ≤ txMax := by
  have hlines : ((List.finRange lcdHeight).filter s.isDirty).length ≤ 240 :=
    (List.length_filter_le _ _).trans (by rw [List.length_finRange]; exact le_rfl)
  rw [written_flush, List.length_cons, List.length_append, length_frames, List.length_singleton]
  have hmax : txMax = 12482 := rfl
  omega

/-- **A flush keeps the link.** -/
theorem Linked.flush {d : Display} (h : Linked d) : Linked (d.transact d.lcd.flush) := by
  by_cases hz : d.lcd.dirtyLines = 0
  · rwa [SharpLcd.flush, if_pos hz]
  · rw [flush_eq hz]
    refine h.transact _ (onlyWrites_flush _ _) (length_written_flush _) fun p htx => ?_
    rw [written_flush] at htx
    exact (applyTransaction_update d.lcd.fb _ d.lcd.vcom p htx).1

/-- **A flush brings the panel into sync.** -/
theorem Mirrored.flush {d : Display} (h : Mirrored d) : InSync (d.transact d.lcd.flush) := by
  by_cases hz : d.lcd.dirtyLines = 0
  · have hclean : ∀ y, d.lcd.isDirty y = false := fun y => by
      have hnone := List.countP_eq_zero.mp hz y (List.mem_finRange y)
      simpa using hnone
    rw [SharpLcd.flush, if_pos hz]
    exact h.inSync hclean
  · rw [flush_eq hz]
    funext i
    obtain ⟨y, k, rfl⟩ := exists_byteIndex i
    rw [transact, foldl_transaction (onlyWrites_flush _ _) (length_written_flush _)]
    refine Eq.symm (((applyTransaction_update d.lcd.fb _ d.lcd.vcom _
      (written_flush d.lcd _)).2 y k).trans ?_)
    -- a line that was not sent was not dirty, and is the same already
    by_cases hy : d.lcd.isDirty y
    · rw [if_pos (by simp [hy])]
    · rw [if_neg (by simp [hy])]
      exact (h y (by simpa using hy) k).symm

/-- The writes of a short transaction. -/
theorem onlyWrites_single (data : List UInt8) : OnlyWrites [.write data] := by
  intro c hc
  exact ⟨data, List.mem_singleton.mp hc⟩

/-- Two bytes fit the buffer. -/
theorem length_written_pair (a b : UInt8) : (written [.write [a, b]]).length ≤ txMax :=
  show 2 ≤ txMax by decide

/-- **`toggle_vcom` keeps the link** and changes no pixel on either side. -/
theorem Linked.toggleVcom {d : Display} (h : Linked d) :
    Linked (d.transact d.lcd.toggleVcom) ∧ (d.transact d.lcd.toggleVcom).lcd.fb = d.lcd.fb ∧
      (d.transact d.lcd.toggleVcom).panel.img = d.panel.img := by
  have hw := onlyWrites_single [vcomBit (!d.lcd.vcom), 0x00]
  have hfits := length_written_pair (vcomBit (!d.lcd.vcom)) 0x00
  refine ⟨h.transact { d.lcd with vcom := !d.lcd.vcom } hw hfits fun p htx =>
    (applyTransaction_mode (!d.lcd.vcom) p htx).1, rfl, ?_⟩
  exact (congrArg VirtualPanel.img (foldl_transaction hw hfits d.panel)).trans
    (applyTransaction_mode (!d.lcd.vcom) _ rfl).2

/-- **`clear` keeps the link** and leaves both sides white. -/
theorem Linked.clear {d : Display} (h : Linked d) :
    Linked (d.transact d.lcd.clear) ∧ InSync (d.transact d.lcd.clear) := by
  have hw := onlyWrites_single [lcdM2Clear ||| vcomBit d.lcd.vcom, 0x00]
  have hfits := length_written_pair (lcdM2Clear ||| vcomBit d.lcd.vcom) 0x00
  refine ⟨h.transact d.lcd.clear.2 hw hfits fun p htx =>
    (applyTransaction_clear d.lcd.vcom p htx).1, ?_⟩
  exact ((congrArg VirtualPanel.img (foldl_transaction hw hfits d.panel)).trans
    (applyTransaction_clear d.lcd.vcom _ rfl).2).symm

/-- A picture in sync is mirrored. -/
theorem InSync.mirrored {d : Display} (h : InSync d) : Mirrored d :=
  fun y _ k => congrFun h (byteIndex y k)

/-- A picture all of whose lines are marked is mirrored. -/
theorem mirrored_fillWhite (d : Display) : Mirrored (d.draw d.lcd.fillWhite) := fun y hy => by
  rw [draw, SharpLcd.isDirty_fillWhite] at hy
  cases hy

variable {F : Fonts} {d d' : Display}

/-- **Drawing** leaves the panel alone and keeps what drawing keeps. -/
theorem exec_draws {op : LcdOp} (hdraws : op.draws = true) (h : d.exec F op = some d') :
    d'.panel = d.panel ∧ ∀ img vcom, Drawn img vcom d.lcd → Drawn img vcom d'.lcd := by
  cases op with
  | setPixel x y black =>
    obtain rfl := Option.some.inj h
    exact ⟨rfl, fun _ _ hd => hd.setPixel x y black⟩
  | fillRect x y w h' black =>
    obtain ⟨s, hs, rfl⟩ := Option.map_eq_some_iff.mp h
    exact ⟨rfl, fun _ _ hd => hd.fillRect hs⟩
  | fillDither x y w h' level =>
    obtain ⟨s, hs, rfl⟩ := Option.map_eq_some_iff.mp h
    exact ⟨rfl, fun _ _ hd => hd.fillDither hs⟩
  | drawHline x y w black =>
    obtain ⟨s, hs, rfl⟩ := Option.map_eq_some_iff.mp h
    exact ⟨rfl, fun _ _ hd => hd.drawHline hs⟩
  | drawText x y text black =>
    obtain rfl := Option.some.inj h
    exact ⟨rfl, fun _ _ hd => hd.drawText F x y text black⟩
  | drawTextScaled x y text black scale =>
    obtain rfl := Option.some.inj h
    exact ⟨rfl, fun _ _ hd => hd.drawTextScaled F x y text black scale⟩
  | drawTextBig x y text black =>
    obtain rfl := Option.some.inj h
    exact ⟨rfl, fun _ _ hd => hd.drawTextBig F x y text black⟩
  | drawTextBold x y text face black =>
    obtain rfl := Option.some.inj h
    exact ⟨rfl, fun _ _ hd => hd.drawTextBold F x y text face black⟩
  | fillWhite => cases hdraws
  | clear => cases hdraws
  | toggleVcom => cases hdraws
  | flush => cases hdraws

/-- **Every operation keeps the link.** -/
theorem Linked.exec (hl : Linked d) {op : LcdOp} (h : d.exec F op = some d') : Linked d' := by
  cases hdraws : op.draws with
  | true =>
    obtain ⟨hpanel, hkeep⟩ := exec_draws hdraws h
    have hvcom := (hkeep d.lcd.fb d.lcd.vcom ⟨fun _ _ _ => rfl, rfl⟩).2
    exact ⟨by rw [hpanel, hvcom, hl.vcom_eq], by rw [hpanel, hl.not_overflowed]⟩
  | false =>
    cases op with
    | fillWhite => exact Option.some.inj h ▸ ⟨hl.vcom_eq, hl.not_overflowed⟩
    | clear => exact Option.some.inj h ▸ hl.clear.1
    | toggleVcom => exact Option.some.inj h ▸ hl.toggleVcom.1
    | flush => exact Option.some.inj h ▸ hl.flush
    | _ => cases hdraws

/-- **Every operation keeps the mirror.** -/
theorem Mirrored.exec (hm : Mirrored d) (hl : Linked d) {op : LcdOp}
    (h : d.exec F op = some d') : Mirrored d' := by
  cases hdraws : op.draws with
  | true =>
    obtain ⟨hpanel, hkeep⟩ := exec_draws hdraws h
    rw [Mirrored, hpanel]
    exact (hkeep d.panel.img d.lcd.vcom ⟨hm, rfl⟩).1
  | false =>
    cases op with
    | fillWhite => exact Option.some.inj h ▸ mirrored_fillWhite d
    | clear => exact Option.some.inj h ▸ hl.clear.2.mirrored
    | flush => exact Option.some.inj h ▸ hm.flush.mirrored
    | toggleVcom =>
      obtain rfl := Option.some.inj h
      intro y hy k
      rw [hl.toggleVcom.2.1, hl.toggleVcom.2.2]
      exact hm y hy k
    | _ => cases hdraws

/-- `fill_white` and `clear` start the mirror, whatever was there before. -/
theorem mirrored_of_initializes (hl : Linked d) {op : LcdOp} (hop : op.initializes = true)
    (h : d.exec F op = some d') : Mirrored d' := by
  cases op with
  | fillWhite => exact Option.some.inj h ▸ mirrored_fillWhite d
  | clear => exact Option.some.inj h ▸ hl.clear.2.mirrored
  | _ => cases hop

/-- A `clear`, and a flush of a mirror, bring the panel into sync. -/
theorem inSync_of_synchronizes (hl : Linked d) {op : LcdOp} (hop : op.synchronizes = true)
    (hm : op.initializes = false → Mirrored d) (h : d.exec F op = some d') : InSync d' := by
  cases op with
  | clear => exact Option.some.inj h ▸ hl.clear.2
  | flush => exact Option.some.inj h ▸ (hm rfl).flush
  | _ => cases hop

/-! ## Sessions -/

/-- A session and one more operation. -/
theorem execAll_append_singleton (ops : List LcdOp) (op : LcdOp) :
    execAll F d (ops ++ [op]) = (execAll F d ops).bind fun e => e.exec F op := by
  simp [execAll, List.foldlM_append]

/-- Driver and panel are linked after every session. -/
theorem linked_execAll {fb : Image} {ops : List LcdOp}
    (h : execAll F (powerUp fb) ops = some d) : Linked d := by
  induction ops using List.reverseRecOn generalizing d with
  | nil => exact Option.some.inj h ▸ ⟨rfl, rfl⟩
  | append_singleton ops op ih =>
    rw [execAll_append_singleton] at h
    obtain ⟨e, he, hop⟩ := Option.bind_eq_some_iff.mp h
    exact (ih he).exec hop

/-- The panel mirrors the framebuffer after every session with a `fill_white` or a `clear`. -/
theorem mirrored_execAll {fb : Image} {ops : List LcdOp} (hinit : ops.any LcdOp.initializes = true)
    (h : execAll F (powerUp fb) ops = some d) : Mirrored d := by
  induction ops using List.reverseRecOn generalizing d with
  | nil => cases hinit
  | append_singleton ops op ih =>
    rw [execAll_append_singleton] at h
    obtain ⟨e, he, hop⟩ := Option.bind_eq_some_iff.mp h
    rw [List.any_append, Bool.or_eq_true] at hinit
    obtain hbefore | hnow := hinit
    · exact (ih hbefore he).exec (linked_execAll he) hop
    · exact mirrored_of_initializes (linked_execAll he) (by simpa using hnow) hop

/-- **The panel mirrors the framebuffer.** After every session that returns, over whatever the
framebuffer held: VCOM agrees, nothing has overflowed, and `toggle_vcom` would change no pixel on
either side. From the first `fill_white` or `clear` on, every line whose dirty bit is clear is the
same on both sides; after a `flush` or a `clear` the driver reads back, at every coordinate, what
the panel shows. -/
theorem panel_mirrors_framebuffer (F : Fonts) (fb : Image) (ops : List LcdOp) (d : Display)
    (h : execAll F (powerUp fb) ops = some d) :
    d.panel.vcom = d.lcd.vcom ∧ d.panel.overflowed = false ∧
    (∀ d', d.exec F .toggleVcom = some d' →
      d'.lcd.fb = d.lcd.fb ∧ d'.panel.img = d.panel.img ∧ d'.lcd.vcom = !d.lcd.vcom) ∧
    (ops.any LcdOp.initializes = true →
      (∀ y, d.lcd.isDirty y = false →
        ∀ k, d.lcd.fb (byteIndex y k) = d.panel.img (byteIndex y k)) ∧
      (∀ last ∈ ops.getLast?, last.synchronizes = true →
        ∀ x y, d.lcd.getPixel x y = d.panel.pixel x y)) := by
  have hl := linked_execAll h
  refine ⟨hl.vcom_eq, hl.not_overflowed, fun d' htoggle => ?_, fun hinit =>
    ⟨mirrored_execAll hinit h, fun last hlast hsync => ?_⟩⟩
  · obtain rfl := Option.some.inj htoggle
    exact ⟨hl.toggleVcom.2.1, hl.toggleVcom.2.2, rfl⟩
  · obtain ⟨ops, rfl⟩ := List.getLast?_eq_some_iff.mp hlast
    rw [execAll_append_singleton] at h
    obtain ⟨e, he, hop⟩ := Option.bind_eq_some_iff.mp h
    -- `clear` needs no mirror: the panel is cleared whole; only a `flush` builds on one
    refine (inSync_of_synchronizes (linked_execAll he) hsync (fun hno => ?_) hop).getPixel_eq
    refine mirrored_execAll ?_ he
    simpa [hno] using hinit

/-- Tables without a glyph. -/
def blankFonts : Fonts where
  ascii _ _ := 0
  extra _ := none
  emoji _ := none
  big _ := none
  bold _ _ := none

/-- A pixel drawn on a white screen is on the panel after a flush. -/
theorem panel_mirrors_framebuffer_sample : ∃ d,
    execAll blankFonts (powerUp fun _ => 0x00) [.fillWhite, .setPixel 3 2 true, .flush] = some d ∧
      ∀ x y, d.lcd.getPixel x y = d.panel.pixel x y :=
  ⟨_, rfl, (panel_mirrors_framebuffer blankFonts (fun _ => 0x00)
    [.fillWhite, .setPixel 3 2 true, .flush] _ rfl).2.2.2 rfl |>.2 .flush rfl rfl⟩

end Display

end Thicket.Lcd
