import Mathlib.Data.UInt
import Mathlib.Data.List.Basic
import Mathlib.Data.Fintype.Basic
import Thicket.Base.Runs
import Thicket.Keypad.Tca8418

/-! # Polling a scanner that keeps pushing

The chip is a FIFO of ten bytes with an interrupt status register, a `Scanner` is the chip with
the driver polling it, and a run interleaves events entering the FIFO with the individual bus
accesses of any sequence of polls. Whatever happens, what has been reported is the decodable bytes
in FIFO order; a poll leaves bytes behind a cleared interrupt exactly when the clearing write goes
through while the FIFO holds something. -/

namespace Thicket.Keypad

open Runs

/-- Depth of the event FIFO. -/
def fifoDepth : Nat := 10

/-- The TCA8418 as the driver sees it. -/
structure Chip where
  /-- The FIFO, head first. -/
  fifo : List UInt8 := []
  /-- The interrupt status register. -/
  intStat : UInt8 := 0
  /-- The depth of the FIFO. -/
  fifo_le : fifo.length ≤ fifoDepth := by decide

namespace Chip

/-- An event arrives: it enters the FIFO and sets `K_INT`; with the FIFO full it is dropped and
sets `OVR_FLOW_INT`. -/
def enter (c : Chip) (b : UInt8) : Chip :=
  if h : c.fifo.length < fifoDepth then
    { fifo := c.fifo ++ [b], intStat := c.intStat ||| tcaIntK,
      fifo_le := by simpa using Nat.succ_le_of_lt h }
  else { c with intStat := c.intStat ||| tcaIntOvrFlow }

/-- One register access; a failed one leaves the chip as it was. Reading the FIFO head shifts the
FIFO down and reads `0` when it is empty, the count register holds the number of bytes, and writing
a `1` to a status bit clears it. -/
def access (c : Chip) : (r : BusReq) → Bool → r.Resp × Chip
  | .readReg _, false => (none, c)
  | .writeReg _ _, false => (false, c)
  | .readReg reg, true =>
      if reg = tcaIntStat then (some c.intStat, c)
      else if reg = tcaKeyLckEc then (some (UInt8.ofNat c.fifo.length), c)
      else if reg = tcaKeyEventA then
        (some (c.fifo.headD 0),
          { c with
            fifo := c.fifo.tail
            fifo_le := by rw [List.length_tail]; exact (Nat.sub_le _ _).trans c.fifo_le })
      else (some 0, c)
  | .writeReg reg value, true =>
      if reg = tcaIntStat then (true, { c with intStat := c.intStat &&& ~~~value }) else (true, c)

/-- `K_INT` is set. -/
def IntK (c : Chip) : Prop := c.intStat &&& tcaIntK ≠ 0

/-- Whatever sits in the FIFO is announced by `K_INT`. -/
def Armed (c : Chip) : Prop := c.fifo ≠ [] → c.IntK

end Chip

/-- Bit 0 of a byte, as a mask test. -/
theorem and_intK_eq_zero_iff (w : BitVec 8) : w &&& 1#8 = 0#8 ↔ w.getLsbD 0 = false := by
  revert w; decide

/-- Setting bits never clears `K_INT`. -/
theorem intK_or (stat m : UInt8) (h : stat &&& tcaIntK ≠ 0) : (stat ||| m) &&& tcaIntK ≠ 0 := by
  simp only [ne_eq, ← UInt8.toBitVec_inj, tcaIntK] at h ⊢
  simp only [UInt8.toBitVec_and, UInt8.toBitVec_or, UInt8.toBitVec_one, UInt8.toBitVec_zero,
    and_intK_eq_zero_iff, BitVec.getLsbD_or] at h ⊢
  simp_all

/-- Setting `K_INT` sets it. -/
theorem intK_or_self (stat : UInt8) : (stat ||| tcaIntK) &&& tcaIntK ≠ 0 := by
  simp only [ne_eq, ← UInt8.toBitVec_inj, tcaIntK, UInt8.toBitVec_and, UInt8.toBitVec_or,
    UInt8.toBitVec_one, UInt8.toBitVec_zero, and_intK_eq_zero_iff, BitVec.getLsbD_or]
  simp

/-- Writing the status back keeps `K_INT` exactly when the written byte has it clear. -/
theorem intK_and_not (stat v : UInt8) :
    (stat &&& ~~~v) &&& tcaIntK ≠ 0 ↔ stat &&& tcaIntK ≠ 0 ∧ v &&& tcaIntK = 0 := by
  simp only [ne_eq, ← UInt8.toBitVec_inj, tcaIntK, UInt8.toBitVec_and, UInt8.toBitVec_not,
    UInt8.toBitVec_one, UInt8.toBitVec_zero, and_intK_eq_zero_iff, BitVec.getLsbD_and,
    BitVec.getLsbD_not]
  simp

namespace Chip

/-- An arriving event leaves what is in the FIFO announced. -/
theorem Armed.enter {c : Chip} (h : c.Armed) (b : UInt8) : (c.enter b).Armed := by
  unfold Chip.enter
  split
  · exact fun _ => intK_or_self _
  · exact fun hne => intK_or _ _ (h hne)

/-- A read leaves what is in the FIFO announced. -/
theorem Armed.read {c : Chip} (h : c.Armed) (reg : UInt8) (ok : Bool) :
    (c.access (.readReg reg) ok).2.Armed := by
  cases ok with
  | false => exact h
  | true =>
    simp only [access]
    split
    · exact h
    split
    · exact h
    split
    · intro hne
      refine h (fun hnil => hne ?_)
      simp only [hnil, List.tail_nil]
    · exact h

/-- A status write leaves what is in the FIFO announced exactly when it did not clear `K_INT` over
a byte. -/
theorem armed_write_iff {c : Chip} (h : c.Armed) (v : UInt8) :
    (c.access (.writeReg tcaIntStat v) true).2.Armed ↔ (v &&& tcaIntK ≠ 0 → c.fifo = []) := by
  simp only [access, if_true, Armed, IntK, ne_eq]
  constructor
  · intro harm hv
    by_contra hne
    exact hv ((intK_and_not c.intStat v).mp (harm hne)).2
  · intro hempty hne
    refine (intK_and_not c.intStat v).mpr ⟨h hne, ?_⟩
    by_contra hv
    exact hne (hempty hv)

end Chip

/-- A chip and the driver polling it. -/
structure Scanner where
  /-- The chip. -/
  chip : Chip := {}
  /-- `_overflowed`. -/
  overflowed : Bool := false
  /-- The `poll` under way, if any. -/
  running : Option (BusProg PollResult) := none
  /-- The outputs of all finished polls, concatenated. -/
  output : List KeyEvent := []
  /-- Every byte that has entered the FIFO, oldest first. -/
  entered : List UInt8 := []

/-- What can happen next. -/
inductive Happening where
  /-- An event arrives at the chip. -/
  | enter (b : UInt8)
  /-- The bus access the driver waits for is carried out, or fails. -/
  | access (ok : Bool)
  /-- `poll(out, max)` is called; a call while one is under way does nothing. -/
  | poll (max : Nat)
  deriving DecidableEq

namespace Scanner

/-- Let the driver run up to its next bus access, or to its return. -/
def settle (s : Scanner) : BusProg PollResult → Scanner
  | .done r => { s with running := none, output := s.output ++ r.out, overflowed := r.overflowed }
  | .ask r k => { s with running := some (.ask r k) }

/-- One happening. -/
def step (s : Scanner) : Happening → Scanner
  | .enter b => { s with
      chip := s.chip.enter b
      entered := if s.chip.fifo.length < fifoDepth then s.entered ++ [b] else s.entered }
  | .poll max =>
      match s.running with
      | none => s.settle (poll s.overflowed max)
      | some _ => s
  | .access ok =>
      match s.running with
      | some (.ask r k) =>
          ({ s with chip := (s.chip.access r ok).2 } : Scanner).settle (k (s.chip.access r ok).1)
      | _ => s

/-- The scanner after a sequence of happenings since power-up. -/
def after (hs : List Happening) : Scanner := run step {} hs

/-- **What a returned poll owes its caller**: the outputs so far are exactly the decodable bytes
that have left the FIFO, in order, and bytes still in it are announced by `K_INT`. -/
structure NothingStranded (s : Scanner) : Prop where
  /-- Nothing lost, nothing invented, nothing reordered. -/
  delivered : s.entered.filterMap decode = s.output ++ s.chip.fifo.filterMap decode
  /-- The next poll will look at what is left. -/
  armed : s.chip.Armed

/-- Carrying out the access a poll waits for lets it run on with the answer. -/
theorem step_access {s : Scanner} {r : BusReq} {k : r.Resp → BusProg PollResult}
    (hr : s.running = some (.ask r k)) (ok : Bool) :
    s.step (.access ok) =
      ({ s with chip := (s.chip.access r ok).2 } : Scanner).settle
        (k (s.chip.access r ok).1) := by
  simp only [step, hr]

/-- The access a freshly settled driver waits for, carried out. -/
theorem step_access_settle (s : Scanner) (r : BusReq) (k : r.Resp → BusProg PollResult)
    (ok : Bool) :
    (s.settle (.ask r k)).step (.access ok) =
      ({ s with chip := (s.chip.access r ok).2 } : Scanner).settle (k (s.chip.access r ok).1) := by
  simp only [settle, step]

/-- The step clears `K_INT`, if at all, over an empty FIFO. -/
def ClearsEmpty (s : Scanner) (h : Happening) : Prop :=
  match s.running, h with
  | some (.ask (.writeReg _ v) _), .access true => v &&& tcaIntK ≠ 0 → s.chip.fifo = []
  | _, _ => True

end Scanner

/-! ## What a poll reports, whatever it reads -/

/-- Every way of answering the program makes it return `out` followed by the decodable bytes it
reads from the FIFO head; a write is to the status register and is the last thing it does. -/
def Reports : BusProg PollResult → List KeyEvent → Prop
  | .done r, out => r.out = out
  | .ask (.readReg reg) k, out =>
      Reports (k none) out ∧
        ∀ raw, Reports (k (some raw))
          (if reg = tcaKeyEventA then out ++ (decode raw).toList else out)
  | .ask (.writeReg reg _) k, out =>
      reg = tcaIntStat ∧ ∀ b, ∃ ovf, k b = .done ⟨out, ovf⟩

/-- The clearing write reports what has been collected. -/
theorem reports_pollClear (ovf : Bool) (stat : UInt8) (out : List KeyEvent) :
    Reports (pollClear ovf stat out) out := by
  unfold pollClear
  split
  · exact ⟨rfl, fun _ => ⟨ovf, rfl⟩⟩
  · rfl

/-- The drain loop adds what it decodes. -/
theorem reports_pollDrain (ovf : Bool) (stat : UInt8) (max pending : Nat) (out : List KeyEvent) :
    Reports (pollDrain ovf stat max pending out) out := by
  induction pending generalizing out with
  | zero => exact reports_pollClear ovf stat out
  | succ pending ih =>
    unfold pollDrain
    split
    · refine ⟨reports_pollClear ovf stat out, fun raw => ?_⟩
      rw [if_pos rfl]
      by_cases h0 : raw = 0
      · subst h0
        simpa using reports_pollClear ovf stat out
      · simp only [h0, if_false]
        cases hd : decode raw with
        | none => simpa using ih out
        | some ev => exact ih (out ++ [ev])
    · exact reports_pollClear ovf stat out

/-- **`poll` reports exactly the decodable bytes it reads**, in order, on any bus. -/
theorem reports_poll (ovf : Bool) (max : Nat) : Reports (poll ovf max) [] := by
  unfold poll
  split
  · rfl
  · refine ⟨rfl, fun stat => ?_⟩
    rw [if_neg (by decide)]
    change Reports (pollStat ovf stat max) []
    unfold pollStat
    split
    · refine ⟨rfl, fun ec => ?_⟩
      rw [if_neg (by decide)]
      exact reports_pollDrain _ _ _ _ _
    · exact reports_pollClear _ _ _

namespace Scanner

/-- What every reachable scanner satisfies while its polls clear over an empty FIFO: the running
poll, if any, will report what it has already taken from the FIFO. -/
structure Sound (s : Scanner) : Prop where
  /-- Bytes taken from the FIFO are in the outputs or about to be reported. -/
  conserved : ∃ out, s.entered.filterMap decode
      = s.output ++ out ++ s.chip.fifo.filterMap decode ∧
    match s.running with
    | none => out = []
    | some p => Reports p out
  /-- Bytes in the FIFO are announced. -/
  armed : s.chip.Armed

/-- Letting the driver run on keeps the books. -/
theorem Sound.settle {s : Scanner} {p : BusProg PollResult} (out : List KeyEvent)
    (hcons : s.entered.filterMap decode = s.output ++ out ++ s.chip.fifo.filterMap decode)
    (hrep : Reports p out) (harm : s.chip.Armed) : Sound (s.settle p) := by
  cases p with
  | done r =>
    refine ⟨⟨[], ?_, rfl⟩, harm⟩
    have hr : r.out = out := hrep
    simpa [Scanner.settle, hr] using hcons
  | ask r k => exact ⟨⟨out, hcons, hrep⟩, harm⟩

/-- Taking the FIFO head moves its decoding from the FIFO to the report. -/
theorem filterMap_head_tail (fifo : List UInt8) :
    fifo.filterMap decode = (decode (fifo.headD 0)).toList ++ fifo.tail.filterMap decode := by
  cases fifo with
  | nil => simp
  | cons b rest => cases h : decode b <;> simp [h]

/-- A read moves bytes from the FIFO to the report of the program that asked for it. -/
theorem Sound.read {s : Scanner} {reg : UInt8} {k : Option UInt8 → BusProg PollResult}
    {out : List KeyEvent} (ok : Bool)
    (hcons : s.entered.filterMap decode = s.output ++ out ++ s.chip.fifo.filterMap decode)
    (hrep : Reports (.ask (.readReg reg) k) out) (harm : s.chip.Armed) :
    Sound (({ s with chip := (s.chip.access (.readReg reg) ok).2 } : Scanner).settle
      (k (s.chip.access (.readReg reg) ok).1)) := by
  have harm' := harm.read reg ok
  cases ok with
  | false => exact Sound.settle _ hcons hrep.1 harm'
  | true =>
    -- a read of the event register takes the head of the FIFO, any other read takes nothing
    by_cases hev : reg = tcaKeyEventA
    · subst hev
      have hread := hrep.2 (s.chip.fifo.headD 0)
      rw [if_pos rfl] at hread
      refine Sound.settle _ ?_ hread harm'
      rw [hcons, filterMap_head_tail s.chip.fifo]
      simp [Chip.access, tcaKeyEventA, tcaIntStat, tcaKeyLckEc]
    · refine Sound.settle out ?_ ?_ harm'
      · rw [hcons]
        simp only [Chip.access, hev, if_false]
        split <;> [rfl; (split <;> rfl)]
      · simp only [Chip.access, hev, if_false]
        have hread := hrep.2
        simp only [hev, if_false] at hread
        split <;> [exact hread _; (split <;> exact hread _)]

/-- One happening that clears, if at all, over an empty FIFO keeps the scanner sound. -/
theorem Sound.step {s : Scanner} {h : Happening} (hs : Sound s) (hok : s.ClearsEmpty h) :
    Sound (s.step h) := by
  obtain ⟨⟨out, hcons, hrun⟩, harm⟩ := hs
  cases h with
  | enter b =>
    -- an event enters the FIFO, or is dropped by the chip and never counted as entered
    refine ⟨⟨out, ?_, hrun⟩, harm.enter b⟩
    unfold Scanner.step Chip.enter
    by_cases hroom : s.chip.fifo.length < fifoDepth
    · simp [hroom, hcons]
    · simpa [hroom] using hcons
  | poll max =>
    unfold Scanner.step
    cases hr : s.running with
    | none =>
      rw [hr] at hrun
      subst hrun
      exact Sound.settle _ hcons (reports_poll _ _) harm
    | some p =>
      rw [hr] at hrun
      exact ⟨⟨out, hcons, by rw [hr]; exact hrun⟩, harm⟩
  | access ok =>
    match hr : s.running with
    | none =>
      simp only [Scanner.step, hr]
      exact ⟨⟨out, hcons, hrun⟩, harm⟩
    | some (.done r) =>
      simp only [Scanner.step, hr]
      exact ⟨⟨out, hcons, hrun⟩, harm⟩
    | some (.ask (.readReg reg) k) =>
      rw [hr] at hrun
      rw [step_access hr]
      exact Sound.read ok hcons hrun harm
    | some (.ask (.writeReg reg v) k) =>
      rw [hr] at hrun
      -- the clearing write is the last access of the poll, which returns what it has collected
      obtain ⟨rfl, hdone⟩ := hrun
      obtain ⟨ovf, hk⟩ := hdone (s.chip.access (.writeReg tcaIntStat v) ok).1
      rw [step_access hr, hk]
      refine Sound.settle out ?_ rfl ?_
      · cases ok <;> exact hcons
      · cases ok with
        | false => exact harm
        | true =>
          simp only [ClearsEmpty, hr] at hok
          exact (Chip.armed_write_iff harm v).mpr hok

/-- A fresh scanner is sound. -/
theorem sound_init : Sound {} := ⟨⟨[], rfl, rfl⟩, fun h => absurd rfl h⟩

/-- At rest, a sound scanner owes nothing. -/
theorem Sound.nothingStranded {s : Scanner} (h : Sound s) (hidle : s.running = none) :
    NothingStranded s := by
  obtain ⟨⟨out, hcons, hrun⟩, harm⟩ := h
  rw [hidle] at hrun
  subst hrun
  exact ⟨by simpa using hcons, harm⟩

/-- Only a status write that goes through can clear over a byte. -/
theorem exists_write_of_not_clearsEmpty {s : Scanner} {h : Happening} (hbad : ¬ s.ClearsEmpty h) :
    ∃ reg v k, s.running = some (.ask (.writeReg reg v) k) ∧ h = .access true ∧
      ¬ (v &&& tcaIntK ≠ 0 → s.chip.fifo = []) := by
  unfold ClearsEmpty at hbad
  split at hbad
  · next reg v k hr => exact ⟨reg, v, k, hr, rfl, hbad⟩
  · exact absurd trivial hbad

/-- A clearing write over a byte strands it: the poll returns with `K_INT` clear. -/
theorem stranded_of_not_clearsEmpty {s : Scanner} {h : Happening} (hs : Sound s)
    (hbad : ¬ s.ClearsEmpty h) :
    (s.step h).running = none ∧ ¬ NothingStranded (s.step h) := by
  obtain ⟨⟨out, hcons, hrun⟩, harm⟩ := hs
  obtain ⟨reg, v, k, hr, rfl, hover⟩ := exists_write_of_not_clearsEmpty hbad
  rw [hr] at hrun
  obtain ⟨rfl, hdone⟩ := hrun
  obtain ⟨ovf, hk⟩ := hdone (s.chip.access (.writeReg tcaIntStat v) true).1
  rw [step_access hr, hk]
  exact ⟨rfl, fun hns => hover ((Chip.armed_write_iff harm v).mp hns.armed)⟩

/-- **No event is stranded exactly when no poll clears over a byte.** Over every interleaving of
arriving events with the bus accesses of any polls, any access allowed to fail: every poll returns
owing nothing iff every clearing write that goes through finds the FIFO empty. -/
theorem nothing_stranded_iff (hs : List Happening) :
    (∀ pre, pre <+: hs → (after pre).running = none → NothingStranded (after pre)) ↔
      Along step ClearsEmpty {} hs := by
  refine forall_prefix_iff_along Sound (fun s => s.running = none → NothingStranded s)
    (fun s hs => hs.nothingStranded) (fun _ _ => Sound.step) (fun s h hs hbad hgood => ?_)
    sound_init hs
  obtain ⟨hidle, hstr⟩ := stranded_of_not_clearsEmpty hs hbad
  exact hstr (hgood hidle)

/-- A key pressed, polled with an eight-entry buffer on a bus that never fails, and released
between the count being read and the interrupt being cleared. -/
def releaseDuringPoll : List Happening :=
  [.enter 0x81, .poll 8, .access true, .access true, .enter 0x01, .access true, .access true]

/-- The release sits in the FIFO behind a cleared interrupt when the poll has returned. -/
theorem release_stranded :
    ¬ ∀ hs : List Happening, (∀ max, .poll max ∈ hs → 1 ≤ max) →
      (after hs).running = none → NothingStranded (after hs) := by
  intro hall
  have hs := hall releaseDuringPoll (by simp [releaseDuringPoll]) rfl
  have hfifo : (after releaseDuringPoll).chip.fifo ≠ [] := by decide
  exact hs.armed hfifo (by decide)

/-! ## A quiet poll drains the chip -/

/-- Reading the FIFO head of a chip that holds a byte. -/
theorem access_keyEventA {c : Chip} {b : UInt8} {rest : List UInt8} (h : c.fifo = b :: rest) :
    (c.access (.readReg tcaKeyEventA) true).1 = some b ∧
      (c.access (.readReg tcaKeyEventA) true).2.fifo = rest := by
  simp [Chip.access, tcaKeyEventA, tcaIntStat, tcaKeyLckEc, h]

/-- Uninterrupted, the drain loop empties a FIFO it was told the length of, and returns. -/
theorem run_pollDrain {stat : UInt8} (hstat : stat ≠ 0) (ovf : Bool) (max : Nat) (fifo : List UInt8)
    (s : Scanner) (out : List KeyEvent) (hfifo : s.chip.fifo = fifo)
    (hroom : out.length + fifo.length ≤ max) (hnz : ∀ b ∈ fifo, b ≠ 0) :
    let t := run step (s.settle (pollDrain ovf stat max fifo.length out))
      (List.replicate (fifo.length + 1) (.access true))
    t.running = none ∧ t.chip.fifo = [] ∧
      t.output = s.output ++ (out ++ fifo.filterMap decode) := by
  induction fifo generalizing s out with
  | nil =>
    rw [List.length_nil, pollDrain, pollClear, if_pos hstat]
    simp [settle, step, Chip.access, hfifo]
  | cons b rest ih =>
    have hb : b ≠ 0 := hnz b (by simp)
    have hlt : out.length < max := by simp only [List.length_cons] at hroom; omega
    have hrest : ∀ c ∈ rest, c ≠ 0 := fun c hc => hnz c (by simp [hc])
    obtain ⟨hread, htail⟩ := access_keyEventA hfifo
    rw [List.length_cons, pollDrain, if_pos hlt, List.replicate_succ, run_cons,
      step_access_settle, hread]
    simp only [hb, if_false]
    cases hd : decode b with
    | none =>
      have hlen : out.length + rest.length ≤ max := by
        simp only [List.length_cons] at hroom; omega
      simpa [hd] using ih { s with chip := (s.chip.access (.readReg tcaKeyEventA) true).2 } out
        htail hlen hrest
    | some ev =>
      have hlen : (out ++ [ev]).length + rest.length ≤ max := by
        simp only [List.length_append, List.length_cons, List.length_nil] at hroom ⊢; omega
      simpa [hd] using ih { s with chip := (s.chip.access (.readReg tcaKeyEventA) true).2 }
        (out ++ [ev]) htail hlen hrest

/-- The low nibble of the count register is the count. -/
theorem count_nibble (c : Chip) : (UInt8.ofNat c.fifo.length &&& 0x0F).toNat = c.fifo.length := by
  have hcount : ∀ n ≤ fifoDepth, (UInt8.ofNat n &&& 0x0F).toNat = n := by decide
  exact hcount _ c.fifo_le

/-- **A quiet poll drains the chip**: called at rest with room for what the FIFO holds, no access
failing and nothing arriving meanwhile, it returns with the FIFO empty and every byte reported. -/
theorem quiet_poll_drains {s : Scanner} {max : Nat} (hidle : s.running = none)
    (harm : s.chip.Armed) (hne : s.chip.fifo ≠ []) (hroom : s.chip.fifo.length ≤ max)
    (hnz : ∀ b ∈ s.chip.fifo, b ≠ 0) :
    let t := run step s (.poll max :: List.replicate (s.chip.fifo.length + 3) (.access true))
    t.running = none ∧ t.chip.fifo = [] ∧ t.output = s.output ++ s.chip.fifo.filterMap decode := by
  have hint : s.chip.intStat &&& tcaIntK ≠ 0 := harm hne
  have hstat : s.chip.intStat ≠ 0 := fun h => hint (by rw [h]; rfl)
  have hmax : max ≠ 0 := by
    have := List.length_pos_iff.mpr hne
    omega
  have hpoll : s.step (.poll max) = s.settle (poll s.overflowed max) := by simp only [step, hidle]
  have hstatus : (s.chip.access (.readReg tcaIntStat) true) = (some s.chip.intStat, s.chip) := rfl
  have hcount : (s.chip.access (.readReg tcaKeyLckEc) true)
      = (some (UInt8.ofNat s.chip.fifo.length), s.chip) := rfl
  rw [run_cons, hpoll, poll, if_neg hmax, List.replicate_succ, run_cons, step_access_settle,
    hstatus]
  simp only [pollStat, hint, ne_eq, not_false_eq_true, if_true]
  rw [List.replicate_succ, run_cons, step_access_settle, hcount]
  simp only [count_nibble]
  simpa using run_pollDrain hstat _ max s.chip.fifo s [] rfl (by simpa using hroom) hnz

end Scanner

end Thicket.Keypad
