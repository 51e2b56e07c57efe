import Mathlib.Algebra.BigOperators.Fin
import Mathlib.Data.Fintype.BigOperators
import Thicket.Base.Runs
import Thicket.AutoReply.Device

/-! # Devices that answer one another

Any number of devices within reach of one another, and messages in the air between them and to
others. Every reply answers a delivery, so replies are bounded by deliveries; but a reply is itself
delivered, and the only guard in the callback compares the source with the device's own hash. Two
devices of which one has been delivered the other's reply answer each other for ever. -/

namespace Thicket.AutoReply

open Runs

/-- The devices and their `lxmf.delivery` hashes. -/
structure Fleet (D : Type) where
  /-- `g_router->delivery_destination().hash()`. -/
  hash : D → Hash
  /-- The size of a truncated hash. -/
  hash_length : ∀ d, (hash d).length = 16
  /-- Devices have different identities. -/
  hash_injective : Function.Injective hash

/-- Where a message comes from. -/
inductive Origin where
  /-- Somebody's message: another party's, a person's, a timed send. -/
  | external
  /-- The auto-reply of a device. -/
  | autoReply
  deriving DecidableEq

/-- A message in the air. -/
structure Message where
  /-- The source hash it carries. -/
  source : Hash
  /-- The destination hash. -/
  destination : Hash
  /-- Where it comes from. -/
  origin : Origin
  deriving DecidableEq

/-- The network: what is in the air, each device's pending reply, and two counts. -/
structure Net (D : Type) where
  /-- Messages transmitted and neither delivered nor lost. -/
  air : List Message := []
  /-- `g_reply` of each device. -/
  reply : D → ReplyRequest := fun _ => {}
  /-- Externally originated messages delivered to devices. -/
  heard : Nat := 0
  /-- Auto-replies transmitted by devices. -/
  sent : Nat := 0

/-- What can happen next. -/
inductive Event (D : Type) where
  /-- Somebody transmits a message. -/
  | originate (source destination : Hash)
  /-- The message at this place in the air is lost. -/
  | lose (i : Nat)
  /-- The message at this place in the air is delivered to a device. -/
  | deliver (d : D) (i : Nat) (now : UInt32)
  /-- A device runs `thicket_work`. -/
  | work (d : D) (now : UInt32) (accepted : Bool)

variable {D : Type} [DecidableEq D] (F : Fleet D)

/-- A message reaches a device: out of the air and into the callback. -/
def Net.deliverTo (s : Net D) (d : D) (i : Nat) (now : UInt32) (m : Message) : Net D :=
  { s with
    air := s.air.eraseIdx i
    reply := Function.update s.reply d ((s.reply d).onDelivery (F.hash d) now m.source)
    heard := s.heard + if m.origin = .external then 1 else 0 }

/-- A device's turn: its reply, if one is sent, goes into the air. -/
def Net.workAt (s : Net D) (d : D) (now : UInt32) (accepted : Bool) : Net D :=
  let w := (s.reply d).work now accepted
  { s with
    air := s.air ++ w.2.toList.map fun toHash => ⟨F.hash d, toHash, .autoReply⟩
    reply := Function.update s.reply d w.1
    sent := s.sent + w.2.toList.length }

/-- One event. A message is delivered only to the device it is addressed to. -/
def Net.step (s : Net D) : Event D → Net D
  | .originate source destination =>
      { s with air := s.air ++ [⟨source, destination, .external⟩] }
  | .lose i => { s with air := s.air.eraseIdx i }
  | .deliver d i now =>
      match s.air[i]? with
      | some m => if m.destination = F.hash d then s.deliverTo F d i now m else s
      | none => s
  | .work d now accepted => s.workAt F d now accepted

/-- A delivery happens to the device a message is addressed to, or not at all. -/
theorem Net.step_deliver (s : Net D) (d : D) (i : Nat) (now : UInt32) :
    (∃ m, s.air[i]? = some m ∧ m.destination = F.hash d ∧
      s.step F (.deliver d i now) = s.deliverTo F d i now m) ∨
    s.step F (.deliver d i now) = s := by
  cases hm : s.air[i]? with
  | none => exact .inr (by simp [Net.step, hm])
  | some m =>
    by_cases hto : m.destination = F.hash d
    · exact .inl ⟨m, rfl, hto, by simp [Net.step, hm, hto]⟩
    · exact .inr (by simp [Net.step, hm, hto])

/-- The network after a run from silence. -/
def after (events : List (Event D)) : Net D := run (Net.step F) {} events

/-- The event does not deliver one device's auto-reply to another. -/
def NoReplyAnswered (s : Net D) : Event D → Prop
  | .deliver d i _ => ∀ m, s.air[i]? = some m → m.destination = F.hash d →
      m.origin = .autoReply → m.source = F.hash d
  | _ => True

/-! ## Replies are bounded by deliveries -/

variable [Fintype D]

/-- The number of replies pending. -/
def pending (reply : D → ReplyRequest) : Nat := ∑ d, (reply d).armed.toNat

/-- Changing one device's request changes the count by that device's share. -/
theorem pending_update (reply : D → ReplyRequest) (d : D) (r : ReplyRequest) :
    pending (Function.update reply d r) + (reply d).armed.toNat
      = pending reply + r.armed.toNat := by
  have hrest : ∑ x ∈ Finset.univ.erase d, (Function.update reply d r x).armed.toNat
      = ∑ x ∈ Finset.univ.erase d, (reply x).armed.toNat :=
    Finset.sum_congr rfl fun x hx => by rw [Function.update_of_ne (Finset.ne_of_mem_erase hx)]
  unfold pending
  rw [← Finset.add_sum_erase _ _ (Finset.mem_univ d), hrest, Function.update_self,
    ← Finset.add_sum_erase _ (fun x => (reply x).armed.toNat) (Finset.mem_univ d)]
  omega

/-- Replies sent and pending are covered by external messages heard. -/
def Covered (s : Net D) : Prop := s.sent + pending s.reply ≤ s.heard

/-- A device's turn keeps the books. -/
theorem Covered.workAt {s : Net D} (h : Covered s) (d : D) (now : UInt32) (accepted : Bool) :
    Covered (s.workAt F d now accepted) := by
  have hone := (s.reply d).armed_work now accepted
  have hpend := pending_update s.reply d ((s.reply d).work now accepted).1
  unfold Covered at h ⊢
  simp only [Net.workAt]
  omega

/-- A delivery that is not another device's reply keeps the books. -/
theorem Covered.deliverTo {s : Net D} (h : Covered s) {d : D} {m : Message} (i : Nat)
    (now : UInt32) (hm : m.origin = .autoReply → m.source = F.hash d) :
    Covered (s.deliverTo F d i now m) := by
  have hpend := pending_update s.reply d ((s.reply d).onDelivery (F.hash d) now m.source)
  unfold Covered at h ⊢
  simp only [Net.deliverTo]
  cases horigin : m.origin with
  | external =>
    have hle := (s.reply d).armed_onDelivery_le (F.hash d) now m.source
    simp only [if_pos]
    omega
  | autoReply =>
    rw [hm horigin, ReplyRequest.onDelivery_own] at hpend ⊢
    simp only [reduceCtorEq, if_false]
    omega

/-- **Every event keeps the books** unless it delivers one device's reply to another. -/
theorem Covered.step {s : Net D} (h : Covered s) {e : Event D} (hok : NoReplyAnswered F s e) :
    Covered (s.step F e) := by
  cases e with
  | originate source destination => exact h
  | lose i => exact h
  | work d now accepted => exact h.workAt F d now accepted
  | deliver d i now =>
    obtain ⟨m, hm, hto, hstep⟩ | hstep := s.step_deliver F d i now
    · rw [hstep]
      exact h.deliverTo F i now (hok m hm hto)
    · rwa [hstep]

/-! ## A reply that is answered is answered for ever -/

omit [Fintype D]

/-- Device `d` is about to answer device `d'`. -/
structure Answering (s : Net D) (d d' : D) : Prop where
  /-- A reply is pending. -/
  armed : (s.reply d).armed = true
  /-- It goes to the other device. -/
  toHash_eq : (s.reply d).toHash = F.hash d'

/-- The event is somebody else's transmission. -/
def Event.originates : Event D → Bool
  | .originate _ _ => true
  | _ => false

/-- A delivered message arms the reply to its source. -/
theorem answering_deliverTo (s : Net D) {d d' : D} (hne : d' ≠ d) (i : Nat) (now : UInt32)
    {m : Message} (hsource : m.source = F.hash d') :
    Answering F (s.deliverTo F d i now m) d d' := by
  have hother : F.hash d' ≠ F.hash d := fun h => hne (F.hash_injective h)
  have harm := (s.reply d).onDelivery_other now (F.hash_length d') hother
  constructor <;> simp [Net.deliverTo, harm, hsource]

/-- **One round of the loop**: the reply is sent and delivered, and the other device is about to
answer it. Nobody else has said anything. -/
theorem Answering.round {s : Net D} {d d' : D} (hne : d ≠ d') (h : Answering F s d d') :
    ∃ round : List (Event D), (∀ e ∈ round, e.originates = false) ∧
      Answering F (run (Net.step F) s round) d' d ∧
      (run (Net.step F) s round).sent = s.sent + 1 ∧
      (run (Net.step F) s round).heard = s.heard := by
  have hwork := ReplyRequest.work_due h.armed (h.toHash_eq ▸ F.hash_length d')
  -- the reply is the last message in the air
  have hair : (s.workAt F d (s.reply d).dueMs true).air[s.air.length]?
      = some ⟨F.hash d, F.hash d', .autoReply⟩ := by
    simp [Net.workAt, hwork, h.toHash_eq]
  refine ⟨[.work d (s.reply d).dueMs true, .deliver d' s.air.length 0], by simp [Event.originates],
    ?_⟩
  have hrun : run (Net.step F) s [.work d (s.reply d).dueMs true, .deliver d' s.air.length 0]
      = (s.workAt F d (s.reply d).dueMs true).deliverTo F d' s.air.length 0
          ⟨F.hash d, F.hash d', .autoReply⟩ := by
    rw [run_cons, run_cons, run_nil]
    simp [Net.step, hair]
  rw [hrun]
  exact ⟨answering_deliverTo F _ hne _ _ rfl, by simp [Net.deliverTo, Net.workAt, hwork],
    by simp [Net.deliverTo, Net.workAt]⟩

/-- **The loop**: any number of replies, on nobody's message. -/
theorem Answering.forever {s : Net D} {d d' : D} (hne : d ≠ d') (h : Answering F s d d') (n : Nat) :
    ∃ rounds : List (Event D), (∀ e ∈ rounds, e.originates = false) ∧
      (run (Net.step F) s rounds).sent = s.sent + n ∧
      (run (Net.step F) s rounds).heard = s.heard := by
  induction n generalizing s d d' with
  | zero => exact ⟨[], by simp, rfl, rfl⟩
  | succ n ih =>
    obtain ⟨round, hquiet, hnext, hsent, hheard⟩ := h.round F hne
    obtain ⟨rounds, hquiet', hsent', hheard'⟩ := ih hne.symm hnext
    refine ⟨round ++ rounds, ?_, ?_, ?_⟩
    · intro e he
      exact (List.mem_append.mp he).elim (hquiet e) (hquiet' e)
    · rw [run_append, hsent', hsent]
      omega
    · rw [run_append, hheard', hheard]

/-- Replies in the air come from devices. -/
def RepliesSigned (s : Net D) : Prop :=
  ∀ m ∈ s.air, m.origin = .autoReply → ∃ d, m.source = F.hash d

/-- Every event puts only devices' replies into the air. -/
theorem RepliesSigned.step {s : Net D} (h : RepliesSigned F s) (e : Event D) :
    RepliesSigned F (s.step F e) := by
  cases e with
  | originate source destination =>
    intro m hm horigin
    obtain hm | hm := List.mem_append.mp hm
    · exact h m hm horigin
    · simp only [List.mem_singleton] at hm
      rw [hm] at horigin
      cases horigin
  | lose i => exact fun m hm => h m (List.mem_of_mem_eraseIdx hm)
  | work d now accepted =>
    intro m hm horigin
    obtain hm | hm := List.mem_append.mp hm
    · exact h m hm horigin
    · -- what a device adds to the air is a reply of its own
      obtain ⟨toHash, -, rfl⟩ := List.mem_map.mp hm
      exact ⟨d, rfl⟩
  | deliver d i now =>
    obtain ⟨m, -, -, hstep⟩ | hstep := s.step_deliver F d i now
    · rw [hstep]
      exact fun m hm => h m (List.mem_of_mem_eraseIdx hm)
    · rwa [hstep]

/-- A device that is delivered another's reply is about to answer it. -/
theorem answering_of_reply_delivered {s : Net D} (h : RepliesSigned F s) {e : Event D}
    (hbad : ¬ NoReplyAnswered F s e) : ∃ d d', d ≠ d' ∧ Answering F (s.step F e) d d' := by
  cases e with
  | originate source destination => exact absurd trivial hbad
  | lose i => exact absurd trivial hbad
  | work d now accepted => exact absurd trivial hbad
  | deliver d i now =>
    simp only [NoReplyAnswered, not_forall] at hbad
    obtain ⟨m, hm, hto, horigin, hsource⟩ := hbad
    obtain ⟨d', hd'⟩ := h m (List.mem_of_getElem? hm) horigin
    have hne : d' ≠ d := fun heq => hsource (heq ▸ hd')
    have hstep : s.step F (.deliver d i now) = s.deliverTo F d i now m := by
      simp [Net.step, hm, hto]
    exact ⟨d, d', hne.symm, hstep ▸ answering_deliverTo F s hne i now hd'⟩

/-- **Auto-replies are bounded by outside traffic as long as no device is delivered another's
reply**, over every run of any number of devices; and once one is, the devices can go on to send
more replies than they have heard messages, with nobody else saying anything. -/
theorem auto_replies_bounded [Fintype D] (F : Fleet D) (events : List (Event D)) :
    (Along (Net.step F) (NoReplyAnswered F) {} events →
      (after F events).sent ≤ (after F events).heard) ∧
    (¬ Along (Net.step F) (NoReplyAnswered F) {} events →
      ∃ pre rounds, pre <+: events ∧ (∀ e ∈ rounds, e.originates = false) ∧
        (after F (pre ++ rounds)).heard < (after F (pre ++ rounds)).sent) := by
  constructor
  · intro halong
    have hcovered : Covered (after F events) :=
      halong.invariant Covered (fun _ _ h hok => h.step F hok) (by simp [Covered, pending])
    exact (Nat.le_add_right _ _).trans hcovered
  · intro hnot
    obtain ⟨pre, e, hpre, -, hbad⟩ := exists_first_of_not_along hnot
    have hsigned : RepliesSigned F (after F pre) :=
      run_invariant (RepliesSigned F) (fun _ e h => h.step F e) (by simp [RepliesSigned]) pre
    -- the reply that is delivered was sent by another device, and from then on the two answer
    -- one another
    obtain ⟨d, d', hne, hans⟩ := answering_of_reply_delivered F hsigned hbad
    obtain ⟨rounds, hquiet, hsent, hheard⟩ :=
      hans.forever F hne ((after F (pre ++ [e])).heard + 1)
    have hlast : (after F pre).step F e = after F (pre ++ [e]) := by simp [after]
    rw [hlast] at hsent hheard
    refine ⟨pre ++ [e], rounds, hpre, hquiet, ?_⟩
    rw [after, run_append]
    change (run (Net.step F) (after F (pre ++ [e])) rounds).heard
      < (run (Net.step F) (after F (pre ++ [e])) rounds).sent
    omega

/-- Two devices. -/
def twoDevices : Fleet Bool where
  hash d := List.replicate 16 (if d then 2 else 1)
  hash_length _ := List.length_replicate
  hash_injective := by decide

/-- A stranger is answered once. -/
theorem auto_replies_bounded_stranger :
    (after twoDevices [.originate (List.replicate 16 9) (twoDevices.hash false), .deliver false 0 0,
      .work false 1500 true]).sent ≤ (after twoDevices [.originate (List.replicate 16 9)
        (twoDevices.hash false), .deliver false 0 0, .work false 1500 true]).heard := by
  refine (auto_replies_bounded twoDevices _).1 ⟨trivial, fun m hm _ horigin => ?_, trivial, trivial⟩
  obtain rfl : _ = m := Option.some.inj hm
  cases horigin

/-- One message with the source hash of one device is delivered to the other, whose reply is
answered. -/
def oneMessage : List (Event Bool) :=
  [.originate (twoDevices.hash true) (twoDevices.hash false), .deliver false 0 0,
    .work false 1500 true, .deliver true 0 2000, .work true 3500 true]

/-- One message heard, two replies sent. -/
theorem one_message_two_replies :
    ¬ ∀ events : List (Event Bool),
      (after twoDevices events).sent ≤ (after twoDevices events).heard := by
  intro hall
  exact absurd (hall oneMessage) (by decide)

end Thicket.AutoReply
