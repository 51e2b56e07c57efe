import Mathlib.Data.List.Chain
import Mathlib.Data.Rat.Floor
import Thicket.AutoReply.Device
import Thicket.Base.Runs

/-! # What a device says

`src/main.cpp`: `setup` and the work task, as far as others hear or see them. A boot brings up five
layers, announces and lights the green LED; every turn of the task then polls the stack, announces
when its timer says so, answers what was delivered and, in a build that asks for it, sends to one
destination. What each layer does and sends by itself (proofs, path requests) is left to it; any of
them may fail, and whatever the stack calls may throw. -/

namespace Thicket.AutoReply

/-! ## Times -/

/-- How a `double` holds the difference of two times: rounding keeps the order and whole numbers. -/
structure Rounding where
  /-- The `double` nearest to a number. -/
  round : ℚ → ℚ
  /-- It keeps the order. -/
  mono : Monotone round
  /-- It keeps whole numbers. -/
  exact : ∀ n : ℕ, n ≤ 2 ^ 53 → round n = n

instance : Inhabited Rounding := ⟨⟨id, monotone_id, fun _ _ => rfl⟩⟩

/-- `OS::time() - last > interval`. -/
def Rounding.elapsed (R : Rounding) (interval : UInt32) (last now : ℚ) : Bool :=
  decide ((interval.toNat : ℚ) < R.round (now - last))

/-- **The timer is never early**, however the difference is rounded. -/
theorem Rounding.lt_of_elapsed {R : Rounding} {interval : UInt32} {last now : ℚ}
    (h : R.elapsed interval last now = true) : last + interval.toNat < now := by
  by_contra hle
  have hround := R.mono (show now - last ≤ interval.toNat by linarith)
  rw [R.exact interval.toNat (by have := interval.toNat_lt; omega)] at hround
  exact absurd (of_decide_eq_true h) (not_lt.mpr hround)

/-! ## The device -/

/-- What the build flags say. -/
structure Build where
  /-- `THICKET_ANNOUNCE_INTERVAL_S`. -/
  announceIntervalS : UInt32 := 1800
  /-- `THICKET_AUTOSEND_INTERVAL_S` and `THICKET_AUTOSEND_DEST`, both or neither. -/
  autosend : Option (UInt32 × List UInt8) := none

/-- The globals of the firmware, and what the pin of the LED was last set to. -/
structure Device where
  /-- `g_stack_up`. -/
  stackUp : Bool := false
  /-- `g_work_task` runs. -/
  task : Bool := false
  /-- `g_last_announce`. -/
  lastAnnounce : ℚ := 0
  /-- `g_reply`. -/
  reply : ReplyRequest := {}
  /-- `g_autosend_ok`. -/
  autosendOk : Bool := false
  /-- `g_autosend_dest`. -/
  autosendDest : Hash := []
  /-- `g_last_autosend`. -/
  lastAutosend : ℚ := 0
  /-- `last` of the fast blink. -/
  blinkLast : UInt32 := 0
  /-- `on` of the fast blink. -/
  blinkOn : Bool := false

/-- An announce: the reading that made it due, unless it is the one at boot, and the reading behind
it, unless it threw. -/
structure Announce where
  /-- When it was due. -/
  due : Option ℚ
  /-- When it was made. -/
  done : Option ℚ

/-- A timed send: the reading that made it due, the one it leaves in `g_last_autosend`, and where
the message went, if it was taken. -/
structure TimedSend where
  /-- When it was due. -/
  due : ℚ
  /-- `g_last_autosend`. -/
  stamp : ℚ
  /-- Where it went. -/
  sentTo : Option Hash

/-- What a device hears and does, as far as others see it. -/
inductive Act where
  /-- A message that its stack delivers: when, by `millis`, and from whom. -/
  | delivered (at' : UInt32) (source : Hash)
  /-- An announce. -/
  | announce (a : Announce)
  /-- An auto-reply, and the reading of `millis` it was due by. -/
  | reply (toHash : Hash) (now : UInt32)
  /-- A timed send. -/
  | timedSend (a : TimedSend)
  /-- The green LED. -/
  | led (on : Bool)

/-- What a device hears, among what it does. -/
def delivered (acts : List Act) : List (UInt32 × Hash) :=
  acts.filterMap fun | .delivered at' source => some (at', source) | _ => none

/-- The announces. -/
def announces (acts : List Act) : List Announce :=
  acts.filterMap fun | .announce a => some a | _ => none

/-- The replies. -/
def replies (acts : List Act) : List Hash :=
  acts.filterMap fun | .reply toHash _ => some toHash | _ => none

/-- The timed sends. -/
def timedSends (acts : List Act) : List TimedSend :=
  acts.filterMap fun | .timedSend a => some a | _ => none

/-- The settings of the LED. -/
def leds (acts : List Act) : List Bool :=
  acts.filterMap fun | .led on => some on | _ => none

@[simp] theorem delivered_append (as bs : List Act) :
    delivered (as ++ bs) = delivered as ++ delivered bs := List.filterMap_append

@[simp] theorem announces_append (as bs : List Act) :
    announces (as ++ bs) = announces as ++ announces bs := List.filterMap_append

@[simp] theorem replies_append (as bs : List Act) :
    replies (as ++ bs) = replies as ++ replies bs := List.filterMap_append

@[simp] theorem timedSends_append (as bs : List Act) :
    timedSends (as ++ bs) = timedSends as ++ timedSends bs := List.filterMap_append

@[simp] theorem leds_append (as bs : List Act) : leds (as ++ bs) = leds as ++ leds bs :=
  List.filterMap_append

/-- Messages that are delivered, as something a device does. -/
def hears (ms : List (UInt32 × Hash)) : List Act := ms.map fun m => .delivered m.1 m.2

@[simp] theorem delivered_hears (ms : List (UInt32 × Hash)) : delivered (hears ms) = ms := by
  simp [delivered, hears, List.filterMap_map]

@[simp] theorem announces_hears (ms : List (UInt32 × Hash)) : announces (hears ms) = [] := by
  simp [announces, hears]

@[simp] theorem replies_hears (ms : List (UInt32 × Hash)) : replies (hears ms) = [] := by
  simp [replies, hears]

@[simp] theorem timedSends_hears (ms : List (UInt32 × Hash)) : timedSends (hears ms) = [] := by
  simp [timedSends, hears]

@[simp] theorem leds_hears (ms : List (UInt32 × Hash)) : leds (hears ms) = [] := by
  simp [leds, hears]

/-- One turn of the work task, as far as the code does not decide it. -/
structure Turn where
  /-- What the stack delivers: when, and from whom. -/
  deliveries : List (UInt32 × Hash)
  /-- The stack throws. -/
  stackThrows : Bool
  /-- The time read by the announce timer. -/
  announceAt : ℚ
  /-- The time behind the announce; nothing if it throws. -/
  announced : Option ℚ
  /-- `millis`. -/
  now : UInt32
  /-- `millis`, read again. -/
  later : UInt32
  /-- The body of the reply cannot be built. -/
  replyThrows : Bool
  /-- The router takes the reply. -/
  replyAccepted : Bool
  /-- The time read by the timer of the timed send. -/
  autosendAt : ℚ
  /-- The time read again. -/
  autosendStamp : ℚ
  /-- The body of the timed send cannot be built. -/
  autosendThrows : Bool
  /-- The router takes the timed send. -/
  autosendAccepted : Bool

variable (B : Build) (R : Rounding) (own : Hash) (assignHex : List UInt8 → Hash)

/-- A part of `thicket_work`: the state behind it, whether what follows is reached, and what is
done. -/
abbrev Part : Type := Device → Device × Bool × List Act

/-- One part and then the next, unless the first throws. -/
def Part.andThen (a b : Part) : Part := fun d =>
  let (d, goesOn, acts) := a d
  if goesOn then
    let (d, goesOn, more) := b d
    (d, goesOn, acts ++ more)
  else (d, false, acts)

/-- `g_reticulum.loop()`, `process_outbound` and `process_inbound`, with the delivery callback. -/
def receive (t : Turn) : Part := fun d =>
  ({ d with reply := t.deliveries.foldl (fun r m => r.onDelivery own m.1 m.2) d.reply },
    !t.stackThrows, hears t.deliveries)

/-- The announce timer. -/
def announceTimer (t : Turn) : Part := fun d =>
  if R.elapsed B.announceIntervalS d.lastAnnounce t.announceAt then
    match t.announced with
    | none => (d, false, [.announce ⟨some t.announceAt, none⟩])
    | some done => ({ d with lastAnnounce := done }, true, [.announce ⟨some t.announceAt, done⟩])
  else (d, true, [])

/-- The auto-reply. -/
def autoReply (t : Turn) : Part := fun d =>
  let (reply, sent) := d.reply.work t.now (t.replyAccepted && !t.replyThrows)
  ({ d with reply := reply }, !(d.reply.due t.now && t.replyThrows),
    sent.toList.map fun toHash => .reply toHash t.now)

/-- The timed send, where it is compiled in. -/
def timedSend (t : Turn) : Part := fun d =>
  match B.autosend with
  | none => (d, true, [])
  | some (interval, _) =>
      if d.autosendOk && R.elapsed interval d.lastAutosend t.autosendAt then
        ({ d with lastAutosend := t.autosendStamp }, !t.autosendThrows,
          [.timedSend ⟨t.autosendAt, t.autosendStamp,
            ReplyRequest.sendLxmf d.autosendDest (t.autosendAccepted && !t.autosendThrows)⟩])
      else (d, true, [])

/-- The fast blink of a device whose bring-up failed. -/
def blink (t : Turn) : Part := fun d =>
  if t.now - d.blinkLast ≥ 120 then
    ({ d with blinkLast := t.later, blinkOn := !d.blinkOn }, true, [.led !d.blinkOn])
  else (d, true, [])

/-- **`thicket_work`**. -/
def thicketWork (t : Turn) : Part := fun d =>
  if !d.stackUp then blink t d
  else
    ((receive own t).andThen
      ((announceTimer B R t).andThen ((autoReply t).andThen (timedSend B R t)))) d

/-- A hex digit. -/
def isHex (c : UInt8) : Bool :=
  (0x30 ≤ c && c ≤ 0x39) || (0x61 ≤ c && c ≤ 0x66) || (0x41 ≤ c && c ≤ 0x46)

/-- `bringup_autosend`, where it is compiled in. -/
def bringupAutosend (now : ℚ) (d : Device) : Device :=
  match B.autosend with
  | none => d
  | some (_, hex) =>
      if hex.length ≠ 32 then d
      else if !hex.all isHex then d
      else if (assignHex hex).length ≠ 16 then { d with autosendDest := assignHex hex }
      else { d with autosendDest := assignHex hex, autosendOk := true, lastAutosend := now }

/-- One boot, as far as the code does not decide it. -/
structure Power where
  /-- `bringup_storage`. -/
  storage : Bool
  /-- `bringup_identity`. -/
  identity : Bool
  /-- `bringup_radio`. -/
  radio : Bool
  /-- `bringup_reticulum`. -/
  reticulum : Bool
  /-- `bringup_lxmf`. -/
  lxmf : Bool
  /-- The time behind the announce; nothing if it throws, which no one catches. -/
  announced : Option ℚ
  /-- The time `bringup_autosend` reads. -/
  autosendAt : ℚ
  /-- `xTaskCreate` succeeds. -/
  created : Bool
  /-- The turns until the power goes. -/
  turns : List Turn

/-- The five steps pass. -/
def Power.layers (p : Power) : Bool := p.storage && p.identity && p.radio && p.reticulum && p.lxmf

/-- **`setup`**. -/
def setup (p : Power) : Device × List Act :=
  if !p.layers then ({}, [.led false])
  else
    match p.announced with
    | none => ({}, [.led false, .announce ⟨none, none⟩])
    | some done =>
        let d := bringupAutosend B assignHex p.autosendAt { lastAnnounce := done }
        ({ d with stackUp := p.created, task := p.created },
          [.led false, .announce ⟨none, done⟩, .led true])

/-- **A boot**: `setup`, and the turns of `thicket_task` if it was created. -/
def boot (p : Power) : List Act :=
  let (d, acts) := setup B assignHex p
  if d.task then
    acts ++ Runs.outputs (fun d t => (thicketWork B R own t d).1)
      (fun d t => (thicketWork B R own t d).2.2) d p.turns
  else acts

/-! ## Replies and what they answer -/

/-- A reply to `toHash` is owed, due at `dueMs`: a message from there that asks for one was
delivered, and nothing was replied since. -/
def Owed (acts : List Act) (toHash : Hash) (dueMs : UInt32) : Prop :=
  ∃ before at' since, acts = before ++ .delivered at' toHash :: since ∧ replies since = [] ∧
    toHash.length = 16 ∧ toHash ≠ own ∧ dueMs = at' + replyDelayMs

/-- A request that is armed is owed. -/
def Backed (acts : List Act) (r : ReplyRequest) : Prop :=
  r.armed = true → Owed own acts r.toHash r.dueMs

/-- Every reply was owed when it was sent, and due. -/
def AllOwed (acts : List Act) : Prop :=
  ∀ before toHash now behind, acts = before ++ .reply toHash now :: behind →
    ∃ dueMs, Owed own before toHash dueMs ∧ (now - dueMs).toInt32 ≥ 0

variable {own} {acts : List Act} {r : ReplyRequest}

/-- A reply stays owed until one is sent. -/
theorem Owed.append {toHash : Hash} {dueMs : UInt32} (h : Owed own acts toHash dueMs)
    {more : List Act} (hmore : replies more = []) : Owed own (acts ++ more) toHash dueMs := by
  obtain ⟨before, at', since, rfl, hsince, hrest⟩ := h
  refine ⟨before, at', since ++ more, ?_, ?_, hrest⟩
  · rw [List.append_assoc, List.cons_append]
  · rw [replies_append, hsince, hmore, List.append_nil]

/-- So it stays backed. -/
theorem Backed.append (h : Backed own acts r) {more : List Act} (hmore : replies more = []) :
    Backed own (acts ++ more) r := fun harmed => (h harmed).append hmore

/-- A delivery is owed a reply, or leaves the request as it was. -/
theorem Backed.onDelivery (h : Backed own acts r) (m : UInt32 × Hash) :
    Backed own (acts ++ [.delivered m.1 m.2]) (r.onDelivery own m.1 m.2) := by
  have hsame : Backed own (acts ++ [.delivered m.1 m.2]) r := h.append rfl
  unfold ReplyRequest.onDelivery
  split
  · exact hsame
  next hlength =>
    split
    · exact hsame
    next hother => exact fun _ => ⟨acts, m.1, [], rfl, rfl, not_not.mp hlength, hother, rfl⟩

/-- So are all the deliveries of a turn. -/
theorem Backed.deliveries (h : Backed own acts r) (ms : List (UInt32 × Hash)) :
    Backed own (acts ++ hears ms) (ms.foldl (fun r m => r.onDelivery own m.1 m.2) r) := by
  induction ms generalizing acts r with
  | nil => simpa [hears] using h
  | cons m ms ih =>
    rw [List.foldl_cons, hears, List.map_cons, List.append_cons]
    exact ih (h.onDelivery m)

/-- A message goes to the hash it is meant for, or nowhere. -/
theorem eq_of_mem_sendLxmf {toHash sentTo : Hash} {accepted : Bool}
    (h : sentTo ∈ ReplyRequest.sendLxmf toHash accepted) : toHash = sentTo := by
  unfold ReplyRequest.sendLxmf at h
  split at h
  · cases h
  · split at h
    · exact Option.some.inj h
    · cases h

/-- What is sent was owed and due, and nothing is pending behind it. -/
theorem Backed.work (h : Backed own acts r) (now : UInt32) (accepted : Bool) :
    (∀ toHash ∈ (r.work now accepted).2, (r.work now accepted).1.armed = false ∧
      ∃ dueMs, Owed own acts toHash dueMs ∧ (now - dueMs).toInt32 ≥ 0) ∧
      Backed own acts (r.work now accepted).1 := by
  unfold ReplyRequest.work
  split
  next hdue =>
    obtain ⟨harmed, htime⟩ := Bool.and_eq_true_iff.mp hdue
    refine ⟨fun toHash hto => ⟨rfl, r.dueMs, ?_, of_decide_eq_true htime⟩, by simp [Backed]⟩
    obtain rfl := eq_of_mem_sendLxmf hto
    exact h harmed
  next => exact ⟨by simp, h⟩

/-- Where there is none, nothing has to be. -/
theorem AllOwed.of_none (h : replies acts = []) : AllOwed own acts := by
  rintro before toHash now behind rfl
  simp [replies] at h

/-- What is no reply changes nothing about them. -/
theorem AllOwed.append (h : AllOwed own acts) {more : List Act} (hmore : replies more = []) :
    AllOwed own (acts ++ more) := by
  intro before toHash now behind heq
  rcases List.append_eq_append_iff.mp heq with ⟨mid, hbefore, hsplit⟩ | ⟨mid, hacts, hsplit⟩
  · -- the reply would be in `more`, which holds none
    rw [hsplit, replies_append] at hmore
    simp [replies] at hmore
  · cases mid with
    | nil =>
      rw [List.nil_append] at hsplit
      rw [← hsplit] at hmore
      simp [replies] at hmore
    | cons x mid =>
      obtain ⟨rfl, -⟩ := List.cons.inj hsplit
      exact h before toHash now mid hacts

/-- One reply more, that is owed and due. -/
theorem AllOwed.reply (h : AllOwed own acts) {toHash : Hash} {now dueMs : UInt32}
    (howed : Owed own acts toHash dueMs) (htime : (now - dueMs).toInt32 ≥ 0) :
    AllOwed own (acts ++ [.reply toHash now]) := by
  intro before other now' behind heq
  rcases List.eq_nil_or_concat behind with rfl | ⟨init, last, rfl⟩
  · obtain ⟨rfl, hlast⟩ := List.append_inj' heq rfl
    obtain ⟨rfl, rfl⟩ : toHash = other ∧ now = now' := by simpa using hlast
    exact ⟨dueMs, howed, htime⟩
  · rw [List.concat_eq_append, ← List.cons_append, ← List.append_assoc] at heq
    exact h before other now' init (List.append_inj' heq rfl).1

/-! ## One message each -/

/-- The places of the replies among what a device does. -/
def replyPlaces (acts : List Act) : Set ℕ := {i | ∃ toHash now, acts[i]? = some (.reply toHash now)}

variable (own) in
/-- Each reply answers the message at the place that is named for it. -/
structure Answers (acts : List Act) (answered : ℕ → ℕ) : Prop where
  /-- It was delivered before, it came from where the reply goes, and the delay is over. -/
  message : ∀ i toHash now, acts[i]? = some (.reply toHash now) → answered i < i ∧
    ∃ at', acts[answered i]? = some (.delivered at' toHash) ∧ toHash.length = 16 ∧ toHash ≠ own ∧
      (now - (at' + replyDelayMs)).toInt32 ≥ 0
  /-- No other reply was sent since. -/
  since : ∀ i ∈ replyPlaces acts, ∀ j, answered i < j → j < i → j ∉ replyPlaces acts

/-- **No message is answered twice.** -/
theorem Answers.injOn {answered : ℕ → ℕ} (h : Answers own acts answered) :
    Set.InjOn answered (replyPlaces acts) := by
  -- the later of two replies answers a message that came behind the earlier one
  have hlt : ∀ i ∈ replyPlaces acts, ∀ j ∈ replyPlaces acts, i < j → answered i < answered j := by
    intro i hi j hj hij
    obtain ⟨toHash, now, hreply⟩ := hi
    have hbefore := (h.message i toHash now hreply).1
    by_contra hle
    exact h.since j hj i (by omega) hij ⟨toHash, now, hreply⟩
  intro i hi j hj heq
  rcases Nat.lt_trichotomy i j with hij | rfl | hij
  · exact absurd heq (hlt i hi j hj hij).ne
  · rfl
  · exact absurd heq (hlt j hj i hi hij).ne'

/-- A reply that was owed and due answers a message, at a place among all that is done. -/
theorem AllOwed.exists_message (h : AllOwed own acts) (i : ℕ) :
    ∃ k, ∀ toHash now, acts[i]? = some (.reply toHash now) → k < i ∧
      (∃ at', acts[k]? = some (.delivered at' toHash) ∧ toHash.length = 16 ∧
        toHash ≠ own ∧ (now - (at' + replyDelayMs)).toInt32 ≥ 0) ∧
      ∀ j, k < j → j < i → j ∉ replyPlaces acts := by
  by_cases hplace : i ∈ replyPlaces acts
  case neg => exact ⟨0, fun toHash now hgot => absurd ⟨toHash, now, hgot⟩ hplace⟩
  obtain ⟨toHash, now, hreply⟩ := hplace
  obtain ⟨hi, hget⟩ := List.getElem?_eq_some_iff.mp hreply
  have hsplit : acts = acts.take i ++ .reply toHash now :: acts.drop (i + 1) := by
    rw [← hget, List.getElem_cons_drop, List.take_append_drop]
  obtain ⟨_, ⟨before, at', since, htake, hnone, hlen, hother, rfl⟩, htime⟩ := h _ _ _ _ hsplit
  have hfirst (j : ℕ) (hj : j < i) :
      acts[j]? = (before ++ .delivered at' toHash :: since)[j]? := by
    rw [← htake, List.getElem?_take_of_lt hj]
  have hbefore : before.length < i := by
    have hcount := congrArg List.length htake
    rw [List.length_take, List.length_append, List.length_cons] at hcount
    omega
  refine ⟨before.length, fun other now' hgot => ⟨hbefore, ?_, ?_⟩⟩
  · obtain ⟨rfl, rfl⟩ : toHash = other ∧ now = now' := by simpa [hreply] using hgot
    refine ⟨at', ?_, hlen, hother, htime⟩
    rw [hfirst _ hbefore]
    simp
  · rintro j hj hji ⟨other, now', hlater⟩
    rw [hfirst j hji, List.getElem?_append_right hj.le, List.getElem?_cons,
      if_neg (by omega)] at hlater
    have hmem : other ∈ replies since :=
      List.mem_filterMap.mpr ⟨_, List.mem_of_getElem? hlater, rfl⟩
    rw [hnone] at hmem
    cases hmem

/-- Where every reply was owed, each answers a message of its own. -/
theorem AllOwed.answers (h : AllOwed own acts) :
    ∃ answered, Answers own acts answered ∧ Set.InjOn answered (replyPlaces acts) := by
  choose answered hanswered using h.exists_message
  have hall : Answers own acts answered := by
    constructor
    · intro i toHash now hreply
      exact ⟨(hanswered i toHash now hreply).1, (hanswered i toHash now hreply).2.1⟩
    · rintro i ⟨toHash, now, hreply⟩
      exact (hanswered i toHash now hreply).2.2
  exact ⟨answered, hall, hall.injOn⟩

/-! ## The account of a boot -/

/-- An announce that comes after another: its timer was due, the whole interval after that one was
made, or that one threw. -/
def Announce.Follows (a b : Announce) : Prop :=
  ∃ due, b.due = some due ∧ ∀ done, a.done = some done → done + B.announceIntervalS.toNat < due

/-- A timed send that comes after another. -/
def TimedSend.Follows (a b : TimedSend) : Prop :=
  ∀ interval hex, B.autosend = some (interval, hex) → a.stamp + interval.toNat < b.due

/-- What a timed send may be sent to: the destination that was compiled in, spelled out in full. -/
def Configured (sentTo : Hash) : Prop :=
  ∃ interval hex, B.autosend = some (interval, hex) ∧ hex.length = 32 ∧ hex.all isHex = true ∧
    sentTo = assignHex hex

variable (own)

/-- **What a device that is up has done**, after it heard `heard`. -/
structure Accounted (d : Device) (heard : List (UInt32 × Hash)) (acts : List Act) : Prop where
  /-- The stack is up. -/
  up : d.stackUp = true
  /-- Announces keep their distance. -/
  announces : (announces acts).IsChain (Announce.Follows B)
  /-- The last is remembered, if it was made. -/
  lastAnnounce : ∀ a ∈ (AutoReply.announces acts).getLast?,
    ∀ done, a.done = some done → d.lastAnnounce = done
  /-- Timed sends keep theirs. -/
  timedSends : (timedSends acts).IsChain (TimedSend.Follows B)
  /-- The last is remembered. -/
  lastAutosend : ∀ a ∈ (AutoReply.timedSends acts).getLast?, a.stamp = d.lastAutosend
  /-- They go where they are compiled to. -/
  configured : ∀ a ∈ AutoReply.timedSends acts, ∀ sentTo ∈ a.sentTo,
    Configured B assignHex sentTo
  /-- So will those to come. -/
  autosendDest : d.autosendOk = true → Configured B assignHex d.autosendDest
  /-- It was told what it heard. -/
  heard : delivered acts = heard
  /-- Replies were owed. -/
  owed : AllOwed own acts
  /-- So is the pending one. -/
  backed : Backed own acts d.reply
  /-- The LED was lit once. -/
  leds : leds acts = [false, true]

variable {B R assignHex own} {heard : List (UInt32 × Hash)}

/-- A part that says nothing of its own about announces, timed sends and the LED, and touches no
more than the pending reply. -/
theorem Accounted.pending {d : Device} (h : Accounted B own assignHex d heard acts)
    {reply : ReplyRequest} {more : List Act} (hannounces : AutoReply.announces more = [])
    (hsends : AutoReply.timedSends more = []) (hleds : AutoReply.leds more = [])
    (howed : AllOwed own (acts ++ more)) (hbacked : Backed own (acts ++ more) reply) :
    Accounted B own assignHex { d with reply := reply } (heard ++ delivered more)
      (acts ++ more) where
  up := h.up
  announces := by simpa [hannounces] using h.announces
  lastAnnounce := by simpa [hannounces] using h.lastAnnounce
  timedSends := by simpa [hsends] using h.timedSends
  lastAutosend := by simpa [hsends] using h.lastAutosend
  configured := by simpa [hsends] using h.configured
  autosendDest := h.autosendDest
  heard := by rw [delivered_append, h.heard]
  owed := howed
  backed := hbacked
  leds := by simpa [hleds] using h.leds

/-- The stack delivers. -/
theorem Accounted.receive {d : Device} (h : Accounted B own assignHex d heard acts) (t : Turn) :
    Accounted B own assignHex (receive own t d).1 (heard ++ t.deliveries)
      (acts ++ (receive own t d).2.2) := by
  have hpending := h.pending (announces_hears t.deliveries) (timedSends_hears t.deliveries)
    (leds_hears t.deliveries) (h.owed.append (replies_hears t.deliveries))
    (h.backed.deliveries t.deliveries)
  rwa [delivered_hears] at hpending

/-- One announce more. -/
theorem Accounted.announce {d : Device} (h : Accounted B own assignHex d heard acts)
    {a : Announce} (last : ℚ) (hfollows : ∀ b ∈ (AutoReply.announces acts).getLast?, b.Follows B a)
    (hlast : ∀ done, a.done = some done → last = done) :
    Accounted B own assignHex { d with lastAnnounce := last } heard (acts ++ [.announce a]) where
  up := h.up
  announces := by
    rw [announces_append]
    refine List.isChain_append.mpr ⟨h.announces, .singleton a, fun b hb c hc => ?_⟩
    obtain rfl : a = c := by simpa [AutoReply.announces] using hc
    exact hfollows b hb
  lastAnnounce := by simpa [AutoReply.announces] using hlast
  timedSends := by simpa [AutoReply.timedSends] using h.timedSends
  lastAutosend := by simpa [AutoReply.timedSends] using h.lastAutosend
  configured := by simpa [AutoReply.timedSends] using h.configured
  autosendDest := h.autosendDest
  heard := by simpa [delivered] using h.heard
  owed := h.owed.append rfl
  backed := h.backed.append rfl
  leds := by simpa [AutoReply.leds] using h.leds

/-- **The announce timer** keeps its distance. -/
theorem Accounted.announceTimer {d : Device} (h : Accounted B own assignHex d heard acts)
    (t : Turn) :
    Accounted B own assignHex (announceTimer B R t d).1 heard
      (acts ++ (announceTimer B R t d).2.2) := by
  unfold AutoReply.announceTimer
  split
  next helapsed =>
    -- the last announce that was made is the one the timer counts from
    have hfollows (done : Option ℚ) : ∀ b ∈ (AutoReply.announces acts).getLast?,
        b.Follows B ⟨some t.announceAt, done⟩ := by
      intro b hb
      refine ⟨t.announceAt, rfl, fun done hdone => ?_⟩
      exact h.lastAnnounce b hb done hdone ▸ R.lt_of_elapsed helapsed
    split
    · exact h.announce d.lastAnnounce (hfollows none) (by simp)
    · exact h.announce _ (hfollows _) (by simp)
  next => simpa using h

/-- **The auto-reply** answers. -/
theorem Accounted.autoReply {d : Device} (h : Accounted B own assignHex d heard acts)
    (t : Turn) :
    Accounted B own assignHex (autoReply t d).1 heard (acts ++ (autoReply t d).2.2) := by
  obtain ⟨howed, hbacked⟩ := h.backed.work t.now (t.replyAccepted && !t.replyThrows)
  unfold AutoReply.autoReply
  dsimp only
  generalize d.reply.work t.now (t.replyAccepted && !t.replyThrows) = w at howed hbacked
  obtain ⟨reply, sent⟩ := w
  cases sent with
  | none =>
    have howed : AllOwed own (acts ++ []) := h.owed.append rfl
    have hpending := h.pending rfl rfl rfl howed (hbacked.append rfl)
    simpa [delivered] using hpending
  | some toHash =>
    obtain ⟨hfree, dueMs, howed, htime⟩ := howed toHash rfl
    have hnone : Backed own (acts ++ [.reply toHash t.now]) reply :=
      fun harmed => absurd harmed (Bool.eq_false_iff.mp hfree)
    have hpending := h.pending rfl rfl rfl (h.owed.reply howed htime) hnone
    simpa [delivered] using hpending

/-- **The timed send** keeps its distance, and goes where it is compiled to. -/
theorem Accounted.timedSend {d : Device} (h : Accounted B own assignHex d heard acts)
    (t : Turn) :
    Accounted B own assignHex (timedSend B R t d).1 heard (acts ++ (timedSend B R t d).2.2) := by
  unfold AutoReply.timedSend
  split
  · simpa using h
  next interval hex hbuild =>
    split
    next hdue =>
      obtain ⟨hok, helapsed⟩ := Bool.and_eq_true_iff.mp hdue
      constructor
      · exact h.up
      · simpa [AutoReply.announces] using h.announces
      · simpa [AutoReply.announces] using h.lastAnnounce
      · rw [timedSends_append]
        refine List.isChain_append.mpr ⟨h.timedSends, .singleton _, fun a ha b hb => ?_⟩
        obtain rfl : _ = b := by simpa [AutoReply.timedSends] using hb
        intro interval' hex' hsame
        obtain ⟨rfl, rfl⟩ : interval = interval' ∧ hex = hex' := by simpa [hbuild] using hsame
        rw [h.lastAutosend a ha]
        exact R.lt_of_elapsed helapsed
      · simp [AutoReply.timedSends]
      · intro a ha sentTo hto
        rw [timedSends_append] at ha
        rcases List.mem_append.mp ha with ha | ha
        · exact h.configured a ha sentTo hto
        · obtain rfl : a = _ := by simpa [AutoReply.timedSends] using ha
          obtain rfl := eq_of_mem_sendLxmf hto
          exact h.autosendDest hok
      · exact h.autosendDest
      · simpa [delivered] using h.heard
      · exact h.owed.append rfl
      · exact h.backed.append rfl
      · simpa [AutoReply.leds] using h.leds
    next => simpa using h

/-- Two parts that keep the account keep it together. -/
theorem Accounted.andThen {a b : Part} {d : Device} {acts : List Act}
    (ha : Accounted B own assignHex (a d).1 heard (acts ++ (a d).2.2))
    (hb : ∀ d acts, Accounted B own assignHex d heard acts →
      Accounted B own assignHex (b d).1 heard (acts ++ (b d).2.2)) :
    Accounted B own assignHex (a.andThen b d).1 heard (acts ++ (a.andThen b d).2.2) := by
  unfold Part.andThen
  dsimp only
  split
  · rw [← List.append_assoc]
    exact hb _ _ ha
  · exact ha

/-- **A turn** of a device that is up keeps the account, wherever it throws. -/
theorem Accounted.thicketWork {d : Device} (h : Accounted B own assignHex d heard acts)
    (t : Turn) :
    Accounted B own assignHex (thicketWork B R own t d).1 (heard ++ t.deliveries)
      (acts ++ (thicketWork B R own t d).2.2) := by
  rw [AutoReply.thicketWork, h.up, Bool.not_true, if_neg Bool.false_ne_true]
  refine (h.receive t).andThen fun _ _ h => ?_
  refine (h.announceTimer t).andThen fun _ _ h => ?_
  exact (h.autoReply t).andThen fun _ _ h => h.timedSend t

/-- So do all its turns. -/
theorem Accounted.turns {d : Device} (h : Accounted B own assignHex d heard acts) (ts : List Turn) :
    ∃ d', Accounted B own assignHex d' (heard ++ ts.flatMap Turn.deliveries)
      (acts ++ Runs.outputs (fun d t => (AutoReply.thicketWork B R own t d).1)
        (fun d t => (AutoReply.thicketWork B R own t d).2.2) d ts) := by
  induction ts generalizing d heard acts with
  | nil => exact ⟨d, by simpa using h⟩
  | cons t ts ih =>
    rw [List.flatMap_cons, Runs.outputs_cons, ← List.append_assoc, ← List.append_assoc]
    exact ih (h.thicketWork t)

variable (B assignHex) in
/-- `bringup_autosend` leaves the timer of the announces and the pending reply alone, and arms the
timed send for what was compiled in. -/
theorem bringupAutosend_spec (now : ℚ) {d : Device} (hoff : d.autosendOk = false) :
    (bringupAutosend B assignHex now d).lastAnnounce = d.lastAnnounce ∧
      (bringupAutosend B assignHex now d).reply = d.reply ∧
      ((bringupAutosend B assignHex now d).autosendOk = true →
        Configured B assignHex (bringupAutosend B assignHex now d).autosendDest) := by
  have hnot : d.autosendOk ≠ true := Bool.eq_false_iff.mp hoff
  unfold bringupAutosend
  split
  · exact ⟨rfl, rfl, fun h => absurd h hnot⟩
  next interval hex hbuild =>
    split
    · exact ⟨rfl, rfl, fun h => absurd h hnot⟩
    next hlen =>
      split
      · exact ⟨rfl, rfl, fun h => absurd h hnot⟩
      next hhex =>
        split
        · exact ⟨rfl, rfl, fun h => absurd h hnot⟩
        next hsize =>
          refine ⟨rfl, rfl, fun _ => ⟨interval, hex, hbuild, not_not.mp hlen, ?_, rfl⟩⟩
          simpa using hhex

/-- A device that has just come up. -/
theorem Accounted.boot (now done : ℚ) (task : Bool) :
    Accounted B own assignHex
      { bringupAutosend B assignHex now { lastAnnounce := done } with
        stackUp := true, task := task }
      [] [.led false, .announce ⟨none, done⟩, .led true] := by
  obtain ⟨hlast, hreply, hdest⟩ :=
    bringupAutosend_spec B assignHex now (d := { lastAnnounce := done }) rfl
  constructor
  · rfl
  · exact .singleton _
  · simpa [AutoReply.announces] using hlast
  · exact .nil
  · simp [AutoReply.timedSends]
  · simp [AutoReply.timedSends]
  · exact hdest
  · rfl
  · exact .of_none rfl
  · simp [Backed, hreply]
  · rfl

/-- What is promised of a boot, for all that it did. -/
structure Explained (B : Build) (own : Hash) (assignHex : List UInt8 → Hash) (p : Power)
    (acts : List Act) : Prop where
  /-- A device that did not come up is silent and dark. -/
  silent : p.layers = false → acts = [.led false]
  /-- One that did lights the LED, and neither ever blinks. -/
  leds : leds acts = if p.layers && p.announced.isSome then [false, true] else [false]
  /-- Announces keep their distance. -/
  announces : (announces acts).IsChain (Announce.Follows B)
  /-- Timed sends keep theirs. -/
  timedSends : (timedSends acts).IsChain (TimedSend.Follows B)
  /-- They go where they are compiled to. -/
  configured : ∀ a ∈ AutoReply.timedSends acts, ∀ sentTo ∈ a.sentTo,
    Configured B assignHex sentTo
  /-- It hears what the stack delivers in the turns of its task, where that runs. -/
  heard : delivered acts = if p.layers && p.announced.isSome && p.created then
    p.turns.flatMap Turn.deliveries else []
  /-- Each reply answers a message that was delivered before it, and no two the same. -/
  answers : ∃ answered, Answers own acts answered ∧ Set.InjOn answered (replyPlaces acts)

/-- An account of a boot that came up explains it. -/
theorem Accounted.explained {d : Device} {p : Power} (h : Accounted B own assignHex d heard acts)
    (hlayers : p.layers = true) (hannounced : p.announced.isSome)
    (hheard : heard = if p.created then p.turns.flatMap Turn.deliveries else []) :
    Explained B own assignHex p acts where
  silent := fun hno => absurd hlayers (Bool.eq_false_iff.mp hno)
  leds := by rw [h.leds, hlayers, hannounced]; rfl
  announces := h.announces
  timedSends := h.timedSends
  configured := h.configured
  heard := by rw [h.heard, hheard, hlayers, hannounced]; rfl
  answers := h.owed.answers

/-- **Everything a device says is explained.** In every boot, whatever fails, is delivered or
throws: a device that does not come up is silent; announces are the one at boot and those whose
timer ran out since the last that was made; replies answer messages delivered before them, each
its own; timed sends are compiled in. -/
theorem boot_explained (B : Build) (R : Rounding) (own : Hash) (assignHex : List UInt8 → Hash)
    (p : Power) : Explained B own assignHex p (boot B R own assignHex p) := by
  rw [boot, setup]
  cases hlayers : p.layers with
  | false =>
    -- `setup` returned at the step that failed, so the task with the fast blink was never created
    exact ⟨fun _ => rfl, by simp [AutoReply.leds, hlayers], .nil, .nil,
      by simp [AutoReply.timedSends], by simp [delivered, hlayers], (AllOwed.of_none rfl).answers⟩
  | true =>
    cases hannounced : p.announced with
    | none =>
      exact ⟨by simp [hlayers], by simp [AutoReply.leds, hannounced], .singleton _, .nil,
        by simp [AutoReply.timedSends], by simp [delivered, hannounced],
        (AllOwed.of_none rfl).answers⟩
    | some done =>
      have hsome : p.announced.isSome := by rw [hannounced]; rfl
      have hboot : Accounted B own assignHex _ [] _ := .boot p.autosendAt done p.created
      cases hcreated : p.created with
      | true =>
        rw [hcreated] at hboot
        obtain ⟨d', hturns⟩ := Accounted.turns (R := R) hboot p.turns
        exact hturns.explained hlayers hsome (by rw [hcreated]; rfl)
      | false => exact hboot.explained hlayers hsome (by rw [hcreated]; rfl)

end Thicket.AutoReply
