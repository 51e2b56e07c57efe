import Thicket.Keypad.KeyFifo

/-! # Configuring the scanner

`Tca8418::begin` claims a rectangle of the matrix. The chip is the FIFO of before with its other
registers beside it, in whatever state it was left, and any register access may fail. -/

namespace Thicket.Keypad

/-- `TCA_CFG`. -/
def tcaCfg : UInt8 := 0x01
/-- `TCA_KP_GPIO1`: the rows. -/
def tcaKpGpio1 : UInt8 := 0x1D
/-- `TCA_KP_GPIO2`: the first eight columns. -/
def tcaKpGpio2 : UInt8 := 0x1E
/-- `TCA_KP_GPIO3`: the other two. -/
def tcaKpGpio3 : UInt8 := 0x1F
/-- `TCA_DEBOUNCE_DIS1`. -/
def tcaDebounceDis1 : UInt8 := 0x29
/-- `TCA_CFG_OVR_FLOW_M`. -/
def tcaCfgOvrFlowM : UInt8 := 0x20
/-- `TCA_CFG_OVR_FLOW_IEN`. -/
def tcaCfgOvrFlowIen : UInt8 := 0x08
/-- `TCA_CFG_KE_IEN`. -/
def tcaCfgKeIen : UInt8 := 0x01

/-! ## `begin` -/

/-- `(1u << n) - 1u`, as a byte. -/
def lowBits (n : Nat) : UInt8 := UInt8.ofNat (1 <<< n - 1)

/-- `row_mask`. -/
def rowMask (rows : UInt8) : UInt8 := lowBits rows.toNat

/-- `col_mask1`. -/
def colMask1 (cols : UInt8) : UInt8 := if cols ≥ 8 then 0xFF else lowBits cols.toNat

/-- `col_mask2`. -/
def colMask2 (cols : UInt8) : UInt8 := if cols > 8 then lowBits (cols - 8).toNat else 0

/-- The rectangle is one of the matrix. -/
def FitsMatrix (rows cols : UInt8) : Prop :=
  ¬ (rows = 0 ∨ tcaRows < rows.toNat ∨ cols = 0 ∨ tcaCols < cols.toNat)

instance (rows cols : UInt8) : Decidable (FitsMatrix rows cols) :=
  inferInstanceAs (Decidable (¬ _))

/-- `if (!_bus.write_reg(reg, value)) return false;`, register by register. -/
def writeAll (k : BusProg Bool) : List (UInt8 × UInt8) → BusProg Bool
  | [] => k
  | w :: ws => .ask (.writeReg w.1 w.2) fun ok => if ok then writeAll k ws else .done false

/-- What is written, in order. -/
def configuration (rows cols : UInt8) : List (UInt8 × UInt8) :=
  [(tcaKpGpio1, rowMask rows), (tcaKpGpio2, colMask1 cols), (tcaKpGpio3, colMask2 cols),
    (tcaDebounceDis1, 0), (tcaCfg, tcaCfgKeIen ||| tcaCfgOvrFlowIen ||| tcaCfgOvrFlowM)]

/-- The end of `begin`: whatever is latched is written back. -/
def clearLatched : BusProg Bool :=
  .ask (.readReg tcaIntStat) fun
    | none => .done true
    | some stat =>
        if stat ≠ 0 then .ask (.writeReg tcaIntStat stat) fun _ => .done true else .done true

/-- **`Tca8418::begin`.** -/
def beginMatrix (rows cols : UInt8) : BusProg Bool :=
  if FitsMatrix rows cols then writeAll clearLatched (configuration rows cols) else .done false

/-! ## The chip and its registers -/

/-- The chip with its other registers. -/
structure KeyChip where
  /-- The FIFO and the status. -/
  chip : Chip
  /-- The other registers. -/
  regs : UInt8 → UInt8

namespace KeyChip

/-- A register that is no part of the FIFO is kept as it is written. -/
def set (c : KeyChip) (w : UInt8 × UInt8) : KeyChip :=
  { c with regs := Function.update c.regs w.1 w.2 }

/-- One register access. -/
def access (r : BusReq) (ok : Bool) (c : KeyChip) : r.Resp × KeyChip :=
  match r with
  | .readReg reg => ((c.chip.access (.readReg reg) ok).1,
      { c with chip := (c.chip.access (.readReg reg) ok).2 })
  | .writeReg reg value =>
      if reg = tcaIntStat ∨ ok = false then
        ((c.chip.access (.writeReg reg value) ok).1,
          { c with chip := (c.chip.access (.writeReg reg value) ok).2 })
      else (true, c.set (reg, value))

/-- A bit of a register. -/
def bit (c : KeyChip) (reg : UInt8) (i : Nat) : Bool := (c.regs reg).toNat.testBit i

/-- A row and a column that both belong to the matrix are scanned. -/
def Scans (c : KeyChip) (row col : Nat) : Prop :=
  c.bit tcaKpGpio1 row = true ∧
    if col < 8 then c.bit tcaKpGpio2 col = true else c.bit tcaKpGpio3 (col - 8) = true

end KeyChip

/-- The byte that a key puts into the FIFO: keys are numbered across the columns first, from one. -/
def keyByte (row col : Nat) (pressed : Bool) : UInt8 :=
  UInt8.ofNat (row * tcaCols + col + 1) ||| if pressed then 0x80 else 0

/-- A key of the matrix is decoded as itself. -/
theorem decode_keyByte : ∀ row < tcaRows, ∀ col < tcaCols, ∀ pressed,
    decode (keyByte row col pressed) = some ⟨row, col, pressed⟩ := by
  decide

/-- The row mask has the rows. -/
theorem testBit_rowMask {rows : UInt8} (h : rows.toNat ≤ tcaRows) {row : Nat}
    (hrow : row < tcaRows) : (rowMask rows).toNat.testBit row = decide (row < rows.toNat) := by
  rw [rowMask]
  generalize rows.toNat = n at h
  revert n row
  decide

/-- The column masks have the columns. -/
theorem testBit_colMask {cols : UInt8} (h : cols.toNat ≤ tcaCols) {col : Nat}
    (hcol : col < tcaCols) :
    (if col < 8 then (colMask1 cols).toNat.testBit col = true
      else (colMask2 cols).toNat.testBit (col - 8) = true) ↔ col < cols.toNat := by
  have hall : ∀ n ≤ tcaCols, ∀ col < tcaCols,
      (if col < 8 then (colMask1 (UInt8.ofNat n)).toNat.testBit col = true
        else (colMask2 (UInt8.ofNat n)).toNat.testBit (col - 8) = true) ↔ col < n := by
    decide
  simpa using hall cols.toNat h col hcol

/-! ## What `begin` leaves -/

/-- **The registers are written** one after the other, up to the first access that fails. -/
theorem exec_writeAll (k : BusProg Bool) {ws : List (UInt8 × UInt8)}
    (hws : ∀ w ∈ ws, w.1 ≠ tcaIntStat) (cs : List Bool) (c : KeyChip) :
    (∃ rest, cs = List.replicate ws.length true ++ rest ∧
      Prog.exec KeyChip.access cs c (writeAll k ws)
        = Prog.exec KeyChip.access rest (ws.foldl KeyChip.set c) k) ∨
    ∃ c', c'.chip = c.chip ∧
      (Prog.exec KeyChip.access cs c (writeAll k ws) = (none, c') ∨
        false ∈ cs.take ws.length ∧
          Prog.exec KeyChip.access cs c (writeAll k ws) = (some false, c')) := by
  induction ws generalizing cs c with
  | nil => exact .inl ⟨cs, rfl, rfl⟩
  | cons w ws ih =>
    obtain ⟨hw, hws⟩ := List.forall_mem_cons.mp hws
    obtain _ | ⟨_ | _, cs⟩ := cs
    · exact .inr ⟨c, rfl, .inl rfl⟩
    · exact .inr ⟨c, rfl, .inr ⟨by simp, by simp [writeAll, KeyChip.access, Chip.access]⟩⟩
    · have hone : Prog.exec KeyChip.access (true :: cs) c (writeAll k (w :: ws))
          = Prog.exec KeyChip.access cs (c.set w) (writeAll k ws) := by
        simp [writeAll, KeyChip.access, hw]
      rw [hone]
      obtain ⟨rest, rfl, hrest⟩ | ⟨c', hchip, hend⟩ := ih hws cs (c.set w)
      · exact .inl ⟨rest, rfl, hrest⟩
      · refine .inr ⟨c', hchip, hend.imp_right fun hfailed => ⟨?_, hfailed.2⟩⟩
        rw [List.length_cons, List.take_succ_cons]
        exact List.mem_cons_of_mem true hfailed.1

/-- Clearing the status touches neither the FIFO nor the other registers; where both accesses pass,
nothing is latched behind it. -/
theorem exec_clearLatched (cs : List Bool) (c : KeyChip) :
    (Prog.exec KeyChip.access cs c clearLatched).2.regs = c.regs ∧
      (Prog.exec KeyChip.access cs c clearLatched).2.chip.fifo = c.chip.fifo ∧
      (Prog.exec KeyChip.access cs c clearLatched).1 ≠ some false ∧
      ((Prog.exec KeyChip.access cs c clearLatched).1 = some true →
        (∀ ok ∈ cs.take 2, ok = true) →
          (Prog.exec KeyChip.access cs c clearLatched).2.chip.intStat = 0) := by
  have hself (stat : UInt8) : stat &&& ~~~stat = 0 := by
    rw [← UInt8.toBitVec_inj]
    simp
  obtain _ | ⟨_ | _, cs⟩ := cs
  · simp [clearLatched]
  · simp [clearLatched, KeyChip.access, Chip.access]
  · by_cases hstat : c.chip.intStat = 0
    · simp [clearLatched, KeyChip.access, Chip.access, hstat]
    · obtain _ | ⟨_ | _, cs⟩ := cs
      · simp [clearLatched, KeyChip.access, Chip.access, hstat]
      · simp [clearLatched, KeyChip.access, Chip.access, hstat]
      · simp [clearLatched, KeyChip.access, Chip.access, hstat, hself]

/-- The chip that scans a rectangle. -/
structure KeyChip.Scanning (c : KeyChip) (rows cols : UInt8) : Prop where
  /-- The rectangle is one of the matrix. -/
  fits : FitsMatrix rows cols
  /-- A key is scanned when it is in it. -/
  scans : ∀ row < tcaRows, ∀ col < tcaCols,
    (c.Scans row col ↔ row < rows.toNat ∧ col < cols.toNat)
  /-- Key events are reported, and so is their loss, which takes two bits. -/
  reports : c.bit tcaCfg 0 = true ∧ c.bit tcaCfg 3 = true ∧ c.bit tcaCfg 5 = true
  /-- The keys are debounced. -/
  debounces : c.regs tcaDebounceDis1 = 0

/-- What a chip scans is in its registers. -/
theorem KeyChip.Scanning.of_regs {c c' : KeyChip} {rows cols : UInt8} (h : c.Scanning rows cols)
    (hregs : c'.regs = c.regs) : c'.Scanning rows cols := by
  obtain ⟨hfits, hscans, hreports, hdebounces⟩ := h
  simp only [KeyChip.Scans, KeyChip.bit, ← hregs] at hscans hreports hdebounces
  exact ⟨hfits, hscans, hreports, hdebounces⟩

/-- The configuration, written in full. -/
theorem scanning_configuration {rows cols : UInt8} (h : FitsMatrix rows cols) (c : KeyChip) :
    ((configuration rows cols).foldl KeyChip.set c).Scanning rows cols := by
  obtain ⟨-, hrows, -, hcols⟩ : rows ≠ 0 ∧ rows.toNat ≤ tcaRows ∧ cols ≠ 0 ∧
      cols.toNat ≤ tcaCols := by
    simpa [FitsMatrix] using h
  refine ⟨h, fun row hrow col hcol => ?_, ?_, ?_⟩
  · simp only [KeyChip.Scans, KeyChip.bit]
    rw [← testBit_colMask hcols hcol, ← decide_eq_true_iff (p := row < rows.toNat),
      ← testBit_rowMask hrows hrow]
    exact Iff.rfl
  · have hcfg : ((configuration rows cols).foldl KeyChip.set c).regs tcaCfg
        = tcaCfgKeIen ||| tcaCfgOvrFlowIen ||| tcaCfgOvrFlowM := rfl
    simp only [KeyChip.bit, hcfg]
    decide
  · rfl

/-- What is promised of `begin`, for the answers of the bus and the chip before and after. -/
structure Begun (rows cols : UInt8) (cs : List Bool) (c c' : KeyChip) (result : Option Bool) :
    Prop where
  /-- **It claims the rectangle.** -/
  claims : result = some true → c'.Scanning rows cols
  /-- A rectangle that is none of the matrix is refused, and the chip is left alone. -/
  refuses : ¬ FitsMatrix rows cols → result = some false ∧ c' = c
  /-- One of the matrix is given up only for a register that could not be written. -/
  givesUp : FitsMatrix rows cols → result = some false → false ∈ cs.take 5
  /-- The events in the FIFO stay. -/
  keeps : c'.chip.fifo = c.chip.fifo
  /-- Where no access fails, nothing is latched any more: these events are not announced. -/
  quiet : result = some true → (∀ ok ∈ cs.take 7, ok = true) → c'.chip.intStat = 0
  /-- A key that is scanned is decoded as itself, inside the rectangle. -/
  keys : result = some true → ∀ row < tcaRows, ∀ col < tcaCols, c'.Scans row col → ∀ pressed,
    row < rows.toNat ∧ col < cols.toNat ∧
      decode (keyByte row col pressed) = some ⟨row, col, pressed⟩

/-- A chip that scans a rectangle reports only keys of it. -/
theorem KeyChip.Scanning.keys {c : KeyChip} {rows cols : UInt8} (h : c.Scanning rows cols)
    (row : Nat) (hrow : row < tcaRows) (col : Nat) (hcol : col < tcaCols) (hscans : c.Scans row col)
    (pressed : Bool) : row < rows.toNat ∧ col < cols.toNat ∧
      decode (keyByte row col pressed) = some ⟨row, col, pressed⟩ := by
  obtain ⟨hr, hc⟩ := (h.scans row hrow col hcol).mp hscans
  exact ⟨hr, hc, decode_keyByte row hrow col hcol pressed⟩

/-- **`begin` claims exactly its rectangle**, whatever the chip held and whichever accesses fail. -/
theorem begin_claims (rows cols : UInt8) (cs : List Bool) (c : KeyChip) :
    Begun rows cols cs c (Prog.exec KeyChip.access cs c (beginMatrix rows cols)).2
      (Prog.exec KeyChip.access cs c (beginMatrix rows cols)).1 := by
  by_cases hfits : FitsMatrix rows cols
  · rw [beginMatrix, if_pos hfits]
    have hregs : ∀ w ∈ configuration rows cols, w.1 ≠ tcaIntStat := by
      simp [configuration, tcaKpGpio1, tcaKpGpio2, tcaKpGpio3, tcaDebounceDis1, tcaCfg, tcaIntStat]
    obtain ⟨rest, rfl, hexec⟩ | ⟨c', hchip, hexec | ⟨hfalse, hexec⟩⟩ :=
      exec_writeAll clearLatched hregs cs c
    · -- All five are written, and what is left to do cannot fail.
      obtain ⟨hregs', hfifo, hpasses, hquiet⟩ :=
        exec_clearLatched rest ((configuration rows cols).foldl KeyChip.set c)
      have hscanning := (scanning_configuration hfits c).of_regs hregs'
      rw [hexec]
      refine ⟨fun _ => hscanning, fun h => absurd hfits h, fun _ h => absurd h hpasses, hfifo,
        fun hresult hall => ?_, fun _ => hscanning.keys⟩
      refine hquiet hresult fun ok hok => hall ok ?_
      rw [List.take_append]
      exact List.mem_append_right _ hok
    · -- The power went before the last of them.
      rw [hexec]
      exact ⟨by simp, fun h => absurd hfits h, by simp, congrArg Chip.fifo hchip, by simp, by simp⟩
    · -- One of them could not be written.
      rw [hexec]
      exact ⟨by simp, fun h => absurd hfits h, fun _ _ => hfalse, congrArg Chip.fifo hchip, by simp,
        by simp⟩
  · rw [beginMatrix, if_neg hfits, Prog.exec_done]
    exact ⟨by simp, fun _ => ⟨rfl, rfl⟩, fun h => absurd h hfits, rfl, by simp, by simp⟩

end Thicket.Keypad
