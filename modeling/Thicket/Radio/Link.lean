import Thicket.Radio.LoRaInterface

/-! # Two stations

Stations send and receive in any order, and the channel loses frames. What one of them passes up is
made of neighbouring frames, whoever sent them; from one sender it is the packets that were read in
full, as long as the sequence numbers do not come round between two frames that are read. -/

namespace Thicket.Radio

open Reassembly
open scoped List

variable {Q : Type}

/-- A call of `send_outgoing`, what the radio answers, and which of the frames the other station
reads. -/
structure Transmission where
  /-- The packet. -/
  data : Packet
  /-- `randomnum(256)`. -/
  random : UInt8
  /-- `transmit` of the first frame succeeds. -/
  ok₁ : Bool
  /-- `transmit` of the second frame succeeds. -/
  ok₂ : Bool
  /-- The first frame is read. -/
  heard₁ : Bool
  /-- The second frame is read. -/
  heard₂ : Bool

/-- What a station does. -/
inductive Event (Q : Type) where
  /-- A packet is sent. -/
  | send (t : Transmission)
  /-- `loop` runs. -/
  | irq (r : Option (Reception Q))

/-- The packets a station sends. -/
def sends (es : List (Event Q)) : List Transmission :=
  es.filterMap fun
    | .send t => some t
    | .irq _ => none

/-- The frames a station reads and looks at. -/
def readings (es : List (Event Q)) : List (Reception Q) :=
  es.filterMap fun
    | .irq (some r) => if r.readable then some r else none
    | _ => none

/-! ## Packets made of frames -/

/-- **Packets are made of frames**: in their order, each is the payload of one frame that is not
split, or of two neighbouring split frames with one sequence number; no frame is in two packets, and
only split frames are left out. -/
inductive MadeOf : List (Reception Q) → List Bytes → Prop
  /-- No frames. -/
  | nil : MadeOf [] []
  /-- A frame that is not split. -/
  | whole (r : Reception Q) {rs : List (Reception Q)} {ds : List Bytes} :
      isSplitPacket (r.frame.headD 0) = false → MadeOf rs ds → MadeOf (r :: rs) (r.frame.tail :: ds)
  /-- Two split frames. -/
  | join (r r' : Reception Q) {rs : List (Reception Q)} {ds : List Bytes} :
      isSplitPacket (r.frame.headD 0) = true → isSplitPacket (r'.frame.headD 0) = true →
      packetSequence (r.frame.headD 0) = packetSequence (r'.frame.headD 0) →
      MadeOf rs ds → MadeOf (r :: r' :: rs) ((r.frame.tail ++ r'.frame.tail) :: ds)
  /-- A split frame that is left out. -/
  | drop (r : Reception Q) {rs : List (Reception Q)} {ds : List Bytes} :
      isSplitPacket (r.frame.headD 0) = true → MadeOf rs ds → MadeOf (r :: rs) ds

/-- A part of its own is a frame that is not split. -/
theorem partOf_eq_whole {frame x : Bytes} (h : partOf frame = .whole x) :
    isSplitPacket (frame.headD 0) = false ∧ x = frame.tail := by
  unfold partOf at h
  split at h
  · cases h
  next hsplit =>
    injection h with h
    exact ⟨Bool.eq_false_iff.mpr hsplit, h.symm⟩

/-- A half is a split frame. -/
theorem partOf_eq_half {frame x : Bytes} {seq : UInt8} (h : partOf frame = .half seq x) :
    isSplitPacket (frame.headD 0) = true ∧ packetSequence (frame.headD 0) = seq ∧
      x = frame.tail := by
  unfold partOf at h
  split at h
  next hsplit =>
    injection h with hseq hx
    exact ⟨hsplit, hseq, hx.symm⟩
  · cases h

/-- What is cut out of the parts is made of the frames. -/
theorem madeOf_of_cut {rs : List (Reception Q)} {ds : List (List Bytes)}
    (h : Cut (rs.map fun r => partOf r.frame) ds) : MadeOf rs (ds.map List.flatten) := by
  generalize hparts : (rs.map fun r => partOf r.frame) = parts at h
  induction h generalizing rs with
  | nil =>
    obtain rfl := List.map_eq_nil_iff.mp hparts
    exact .nil
  | whole a _ ih =>
    obtain ⟨r, rs, rfl, hr, hrest⟩ := List.map_eq_cons_iff.mp hparts
    obtain ⟨hsplit, rfl⟩ := partOf_eq_whole hr
    simpa using (ih hrest).whole r hsplit
  | join t a b _ ih =>
    obtain ⟨r, rs', rfl, hr, hrest'⟩ := List.map_eq_cons_iff.mp hparts
    obtain ⟨r', rs, rfl, hr', hrest⟩ := List.map_eq_cons_iff.mp hrest'
    obtain ⟨hsplit, hseq, rfl⟩ := partOf_eq_half hr
    obtain ⟨hsplit', hseq', rfl⟩ := partOf_eq_half hr'
    simpa using (ih hrest).join r r' hsplit hsplit' (hseq.trans hseq'.symm)
  | drop t a _ ih =>
    obtain ⟨r, rs, rfl, hr, hrest⟩ := List.map_eq_cons_iff.mp hparts
    exact (ih hrest).drop r (partOf_eq_half hr).1

/-- Packets made of frames that are looked at and that the radio can hold. -/
theorem MadeOf.length {rs : List (Reception Q)} {ds : List Bytes} (h : MadeOf rs ds)
    (hlen : ∀ r ∈ rs, 1 < r.frame.length ∧ r.frame.length ≤ 255) :
    ∀ d ∈ ds, 0 < d.length ∧ d.length ≤ hwMtu := by
  have hmtu : hwMtu = 508 := rfl
  induction h with
  | nil => exact fun d hd => absurd hd List.not_mem_nil
  | whole r _ _ ih =>
    obtain ⟨hr, hrs⟩ := List.forall_mem_cons.mp hlen
    refine List.forall_mem_cons.mpr ⟨?_, ih hrs⟩
    rw [List.length_tail]
    omega
  | join r r' _ _ _ _ ih =>
    obtain ⟨hr, hrest⟩ := List.forall_mem_cons.mp hlen
    obtain ⟨hr', hrs⟩ := List.forall_mem_cons.mp hrest
    refine List.forall_mem_cons.mpr ⟨?_, ih hrs⟩
    rw [List.length_append, List.length_tail, List.length_tail]
    omega
  | drop r _ _ ih => exact ih (List.forall_mem_cons.mp hlen).2

/-- The frames of a station are looked at. -/
theorem looked_of_mem_readings {es : List (Event Q)} {r : Reception Q} (h : r ∈ readings es) :
    1 < r.frame.length := by
  obtain ⟨e, -, he⟩ := List.mem_filterMap.mp h
  split at he
  next r' =>
    by_cases hread : r'.readable = true
    · rw [if_pos hread] at he
      obtain rfl := Option.some.inj he
      exact of_decide_eq_true (Bool.and_eq_true_iff.mp hread).2
    · rw [if_neg hread] at he
      cases he
  · cases he

/-! ## Stations -/

variable [Zero Q]

namespace Event

/-- The station after an event. -/
def step (s : LoRaInterface Q) : Event Q → LoRaInterface Q
  | send t => (s.sendOutgoing t.data t.random t.ok₁ t.ok₂).after
  | irq r => (s.loop r).1

/-- The frames of an event that the other station reads. -/
def heard (s : LoRaInterface Q) : Event Q → List Bytes
  | send t => (((s.sendOutgoing t.data t.random t.ok₁ t.ok₂).frames.zip [t.heard₁, t.heard₂]).filter
      Prod.snd).map Prod.fst
  | irq _ => []

/-- What an event passes up. -/
def delivered (s : LoRaInterface Q) : Event Q → List Bytes
  | send _ => []
  | irq r => (s.loop r).2.toList

end Event

namespace Transmission

/-- A packet is in one frame. -/
def Short (t : Transmission) : Prop := t.data.1.length ≤ loraMaxPayload

instance (t : Transmission) : Decidable t.Short := inferInstanceAs (Decidable (_ ≤ _))

/-- What becomes of the frames of a packet; a frame that is only a header is not looked at. -/
def fates (t : Transmission) : List Bool :=
  if t.Short then [t.heard₁ && !t.data.1.isEmpty] else [t.heard₁, t.heard₂]

/-- The packet, if all its frames are read. -/
def complete (t : Transmission) : List Bytes := if t.fates.all id then [t.data.1] else []

/-- A packet as a message on its way, under the sequence number of a counter. -/
def passage (ctr : UInt8) (t : Transmission) : Passage UInt8 Bytes :=
  if t.Short then .single t.data.1 (t.heard₁ && !t.data.1.isEmpty)
  else .split (ctr &&& headerSeqMask) (t.data.1.take loraMaxPayload)
    (t.data.1.drop loraMaxPayload) t.heard₁ t.heard₂

/-- The counter behind a packet. -/
def nextCtr (ctr : UInt8) (t : Transmission) : UInt8 := if t.Short then ctr else ctr + 1

@[simp] theorem fates_passage (ctr : UInt8) (t : Transmission) :
    (t.passage ctr).fates = t.fates := by
  unfold passage fates
  split <;> rfl

/-- A complete message is the packet. -/
theorem flatten_complete_passage (ctr : UInt8) (t : Transmission) :
    (t.passage ctr).complete.map List.flatten = t.complete := by
  unfold passage complete fates
  split
  · cases hok : (t.heard₁ && !t.data.1.isEmpty) <;> simp [Passage.complete]
  · cases t.heard₁ <;> cases t.heard₂ <;> simp [Passage.complete]

end Transmission

/-- Packets as messages on their way, from a counter on. -/
def passages : UInt8 → List Transmission → List (Passage UInt8 Bytes)
  | _, [] => []
  | ctr, t :: ts => t.passage ctr :: passages (t.nextCtr ctr) ts

@[simp] theorem fates_passages (ctr : UInt8) (ts : List Transmission) :
    (passages ctr ts).flatMap Passage.fates = ts.flatMap Transmission.fates := by
  induction ts generalizing ctr with
  | nil => rfl
  | cons t ts ih => simp [passages, ih]

/-- The messages that are complete are the packets read in full. -/
theorem complete_passages (ctr : UInt8) (ts : List Transmission) :
    ((passages ctr ts).flatMap Passage.complete).map List.flatten
      = ts.flatMap Transmission.complete := by
  induction ts generalizing ctr with
  | nil => rfl
  | cons t ts ih =>
    rw [passages, List.flatMap_cons, List.map_append, ih, List.flatMap_cons,
      t.flatten_complete_passage]

/-! ## The sender -/

/-- A frame that is looked at. -/
def Looked (frame : Bytes) : Prop := 1 < frame.length

instance (frame : Bytes) : Decidable (Looked frame) := inferInstanceAs (Decidable (_ < _))

/-- Sending counts split packets, and leaves the interface online. -/
theorem sendOutgoing_after {s : LoRaInterface Q} (hs : s.online = true) (t : Transmission) :
    (s.sendOutgoing t.data t.random t.ok₁ t.ok₂).after
      = { s with txSeqCtr := t.nextCtr s.txSeqCtr } := by
  rw [Transmission.nextCtr]
  split
  next hshort => rw [LoRaInterface.sendOutgoing_of_le hs hshort]
  next hlong => rw [LoRaInterface.sendOutgoing_of_lt hs (Nat.not_le.mp hlong)]

/-- **The frames of a packet that are read** are the parts of it that arrive. -/
theorem partOf_heard {s : LoRaInterface Q} (hs : s.online = true) (t : Transmission) :
    (((Event.send t).heard s).filter fun f => Looked f).map partOf
      = (t.passage s.txSeqCtr).arrived := by
  rw [Event.heard, Transmission.passage]
  by_cases hshort : t.Short
  · have hwhole : partOf ((t.random &&& 0xF0) :: t.data.1) = .whole t.data.1 := by
      simp [partOf, isSplitPacket_nibble]
    have hlook : Looked ((t.random &&& 0xF0) :: t.data.1) ↔ t.data.1 ≠ [] := by
      simp [Looked, List.length_pos_iff]
    rw [LoRaInterface.sendOutgoing_of_le hs hshort, if_pos hshort]
    cases t.heard₁ <;> by_cases hempty : t.data.1 = [] <;>
      simp_all [Passage.arrived]
  · obtain ⟨hsplit, hseq⟩ := splitHdr t.random s.txSeqCtr
    have hhalf (x : Bytes) : partOf (((t.random &&& 0xF0) ||| headerSplit
        ||| (s.txSeqCtr &&& headerSeqMask)) :: x) = .half (s.txSeqCtr &&& headerSeqMask) x := by
      simp [partOf, hsplit, hseq]
    have hlong : loraMaxPayload < t.data.1.length := Nat.not_le.mp hshort
    have hmax : loraMaxPayload = 254 := rfl
    have hfirst (h : UInt8) : Looked (h :: t.data.1.take loraMaxPayload) := by
      simp only [Looked, List.length_cons, List.length_take]
      omega
    have hsecond (h : UInt8) : Looked (h :: t.data.1.drop loraMaxPayload) := by
      simp only [Looked, List.length_cons, List.length_drop]
      omega
    rw [LoRaInterface.sendOutgoing_of_lt hs hlong, if_neg hshort]
    cases t.heard₁ <;> cases t.heard₂ <;> simp [Passage.arrived, hhalf, hfirst, hsecond]

/-- Receiving leaves the interface online and the counter alone. -/
theorem loop_keeps (s : LoRaInterface Q) (r : Option (Reception Q)) :
    (s.loop r).1.online = s.online ∧ (s.loop r).1.txSeqCtr = s.txSeqCtr := by
  cases r with
  | none => exact ⟨rfl, rfl⟩
  | some r =>
    rw [LoRaInterface.loop]
    split
    · unfold LoRaInterface.receive
      dsimp only
      split_ifs <;> exact ⟨rfl, rfl⟩
    · exact ⟨rfl, rfl⟩

/-- **What a station sends** is its packets in parts, whatever it receives in between. -/
theorem partOf_outputs_heard {s : LoRaInterface Q} (hs : s.online = true) (es : List (Event Q)) :
    ((Runs.outputs Event.step Event.heard s es).filter fun f => Looked f).map partOf
      = (passages s.txSeqCtr (sends es)).flatMap Passage.arrived := by
  induction es generalizing s with
  | nil => rfl
  | cons e es ih =>
    rw [Runs.outputs_cons, List.filter_append, List.map_append]
    cases e with
    | send t =>
      have hsends : sends (.send t :: es) = t :: sends es := rfl
      rw [partOf_heard hs t, Event.step, sendOutgoing_after hs t,
        ih (s := { s with txSeqCtr := t.nextCtr s.txSeqCtr }) hs, hsends, passages,
        List.flatMap_cons]
    | irq r =>
      obtain ⟨honline, hctr⟩ := loop_keeps s r
      rw [Event.step, ih (honline.trans hs), hctr]
      rfl

/-! ## The receiver -/

/-- **What a station passes up**, whatever it sends in between. -/
theorem outputs_delivered {s : LoRaInterface Q} (hs : s.online = true) {p : Pending UInt8 Bytes}
    (hp : s.Holds p) (es : List (Event Q)) :
    Runs.outputs Event.step Event.delivered s es
      = (delivered p ((readings es).map fun r => partOf r.frame)).map List.flatten := by
  induction es generalizing s p with
  | nil => rfl
  | cons e es ih =>
    rw [Runs.outputs_cons]
    cases e with
    | send t =>
      have hholds : (Event.step s (.send t)).Holds p := by
        rw [Event.step, sendOutgoing_after hs t]
        cases p <;> exact hp
      have honline : (Event.step s (.send t)).online = true := by
        rw [Event.step, sendOutgoing_after hs t]
        exact hs
      exact ih honline hholds
    | irq r =>
      have honline : (Event.step s (.irq r)).online = true := (loop_keeps s r).1.trans hs
      cases r with
      | none => exact ih honline hp
      | some r =>
        by_cases hread : r.readable = true
        · have hloop : s.loop (some r) = s.receive r := if_pos hs
          obtain ⟨hholds, hout⟩ := hp.receive hread
          have hstep : Event.step s (.irq (some r)) = (s.receive r).1 := by rw [Event.step, hloop]
          rw [← hstep] at hholds
          have hreadings : readings (.irq (some r) :: es) = r :: readings es := by
            simp [readings, hread]
          rw [ih honline hholds, Event.delivered, hloop, hout, hreadings, List.map_cons,
            delivered_cons, List.map_append]
        · have hskip : s.loop (some r) = (s, none) := by
            rw [LoRaInterface.loop]
            simp [LoRaInterface.receive, hread]
          have hreadings : readings (.irq (some r) :: es) = readings es := by
            simp [readings, hread]
          have hstep : Event.step s (.irq (some r)) = s := by rw [Event.step, hskip]
          rw [hstep, ih hs hp, hreadings, Event.delivered, hskip]
          rfl

/-- A station that waits for nothing. -/
theorem holds_none {s : LoRaInterface Q} (h : s.rxSeq = seqUnset) : s.Holds none := h

/-! ## Whoever sends -/

/-- **Whoever sends, and whatever is lost or read wrongly.** What a station passes up is made of the
frames it reads, each packet of one that is not split or of two neighbours with one sequence number,
no frame used twice and none out of its turn; and as a frame has 255 bytes at most, no packet passed
up has more than 508. -/
theorem deliveries_madeOf {s : LoRaInterface Q} (hs : s.online = true)
    (hidle : s.rxSeq = seqUnset) (es : List (Event Q)) :
    MadeOf (readings es) (Runs.outputs Event.step Event.delivered s es) ∧
    ((∀ r ∈ readings es, r.frame.length ≤ 255) →
      ∀ d ∈ Runs.outputs Event.step Event.delivered s es, 0 < d.length ∧ d.length ≤ hwMtu) := by
  have hmade : MadeOf (readings es) (Runs.outputs Event.step Event.delivered s es) := by
    rw [outputs_delivered hs (holds_none hidle) es]
    exact madeOf_of_cut (cut_delivered _)
  exact ⟨hmade, fun hlen => hmade.length fun r hr => ⟨looked_of_mem_readings hr, hlen r hr⟩⟩

/-! ## One sender and a channel that loses frames -/

/-- The sequence number of the split packet with number `i`. -/
def seqOf (i : Nat) : UInt8 := UInt8.ofNat i &&& headerSeqMask

/-- **Eight packets in a row have different sequence numbers.** -/
theorem seqOf_ne {i j : Nat} (hij : i < j) (hj : j < i + 8) : seqOf i ≠ seqOf j := by
  intro he
  have hmask (n : Nat) : n &&& 7 = n % 8 := Nat.and_two_pow_sub_one_eq_mod n 3
  have hnat := congrArg UInt8.toNat he
  simp only [seqOf, headerSeqMask, UInt8.toNat_and, UInt8.toNat_ofNat', UInt8.reduceToNat,
    hmask] at hnat
  omega

/-- Split packets are counted up. -/
theorem numbered_passages (n : Nat) (ts : List Transmission) :
    Numbered seqOf n (passages (UInt8.ofNat n) ts) := by
  induction ts generalizing n with
  | nil => trivial
  | cons t ts ih =>
    rw [passages, Transmission.passage, Transmission.nextCtr]
    split
    · exact ih n
    · have hnext : UInt8.ofNat n + 1 = UInt8.ofNat (n + 1) := by simp
      exact ⟨rfl, hnext ▸ ih (n + 1)⟩

/-- What a station sends, and from where on another listens: the frames the one is heard with are
those the other reads. -/
structure Listening (a : LoRaInterface Q) (es : List (Event Q)) (b : LoRaInterface Q)
    (es' : List (Event Q)) : Prop where
  /-- The sender is online. -/
  sends : a.online = true
  /-- So is the receiver. -/
  listens : b.online = true
  /-- It waits for no second half. -/
  idle : b.rxSeq = seqUnset
  /-- It reads the frames that are heard, and no others. -/
  reads : (readings es').map Reception.frame
    = (Runs.outputs Event.step Event.heard a es).filter fun f => Looked f

variable {a b : LoRaInterface Q} {es es' : List (Event Q)}

/-- The frames of one sender, as the parts of its packets that arrive. -/
theorem Listening.outputs_delivered (h : Listening a es b es') :
    Runs.outputs Event.step Event.delivered b es'
      = (delivered none ((passages a.txSeqCtr (Radio.sends es)).flatMap Passage.arrived)).map
          List.flatten := by
  rw [Radio.outputs_delivered h.listens (holds_none h.idle), ← partOf_outputs_heard h.sends,
    ← h.reads, List.map_map]
  rfl

/-- What each packet passed up is put together from: the payloads, each with the number of the
packet it was sent for. -/
def origins (a : LoRaInterface Q) (es : List (Event Q)) : List (List (Nat × Bytes)) :=
  delivered none ((label 0 (passages a.txSeqCtr (sends es))).flatMap Passage.arrived)

/-- **When two packets are mixed.** Every packet passed up is made of the frames of one packet
exactly when no half that is read meets, waiting, a half of another packet with its sequence
number. -/
theorem link_unmixed_iff (h : Listening a es b es') :
    Runs.outputs Event.step Event.delivered b es'
        = (origins a es).map (fun d => (d.map Prod.snd).flatten) ∧
      ((∀ d ∈ origins a es, FromOne d) ↔ Clear none (passages a.txSeqCtr (sends es))) := by
  refine ⟨?_, forall_fromOne_iff _⟩
  have hmap := delivered_map Prod.snd none
    ((label 0 (passages a.txSeqCtr (sends es))).flatMap Passage.arrived)
  rw [map_snd_arrived_label, Option.map_none] at hmap
  rw [h.outputs_delivered, hmap, List.map_map]
  rfl

/-- **A station passes up exactly the packets that it read in full**, each once and in order,
whatever the two do in between, unless fourteen frames in a row are lost. -/
theorem link_delivers (h : Listening a es b es')
    (hburst : ¬ List.replicate 14 false <:+: (sends es).flatMap Transmission.fates) :
    Runs.outputs Event.step Event.delivered b es' = (sends es).flatMap Transmission.complete := by
  have hclear : Clear none (passages a.txSeqCtr (sends es)) := by
    refine clear_of_not_isInfix (n := 8) (c := a.txSeqCtr.toNat) (fun _ _ => seqOf_ne) ?_
      (by rwa [fates_passages])
    have hnum := numbered_passages a.txSeqCtr.toNat (sends es)
    rwa [UInt8.ofNat_toNat] at hnum
  rw [h.outputs_delivered, delivered_eq_complete (p := none) hclear, complete_passages]

/-- A packet of two frames. -/
def twoFrames : Packet := ⟨List.replicate 255 0, List.length_replicate.trans_le (by decide)⟩

/-- A sending of it, of which these frames are read. -/
def sent (heard₁ heard₂ : Bool) : Event Nat := .send ⟨twoFrames, 0, true, true, heard₁, heard₂⟩

/-- What a station reads of a split packet with sequence number zero. -/
def readHalf (payload : Bytes) : Event Nat := .irq (some ⟨headerSplit :: payload, true, 0, 0⟩)

/-- Nine packets; the last frame of the first is read, and then both of the ninth. -/
def nine : List (Event Nat) :=
  sent false true :: (List.replicate 7 (sent false false) ++ [sent true true])

/-- What of them is read. -/
def threeHalves : List (Event Nat) :=
  [readHalf [0], readHalf (List.replicate 254 0), readHalf [0]]

/-- A station online. -/
def online : LoRaInterface Nat := { online := true }

/-- The three frames are what is read. -/
theorem listening_nine : Listening online nine online threeHalves :=
  ⟨rfl, rfl, rfl, by decide +kernel⟩

/-- What is passed up of the three frames is made of them, and fits. -/
theorem deliveries_madeOf_three :
    MadeOf (readings threeHalves) (Runs.outputs Event.step Event.delivered online threeHalves) ∧
    ∀ d ∈ Runs.outputs Event.step Event.delivered online threeHalves,
      0 < d.length ∧ d.length ≤ hwMtu :=
  have h := deliveries_madeOf (s := online) rfl rfl threeHalves
  ⟨h.1, h.2 (by decide +kernel)⟩

/-- Two frames sent are two frames read. -/
theorem listening_one : Listening online [sent true true] online
    [readHalf (List.replicate 254 0), readHalf [0]] :=
  ⟨rfl, rfl, rfl, by decide +kernel⟩

/-- Without a loss of more than thirteen in a row. -/
theorem link_delivers_one : Runs.outputs Event.step Event.delivered online
    [readHalf (List.replicate 254 0), readHalf [0]]
      = (sends [sent true true]).flatMap Transmission.complete :=
  link_delivers listening_one (by decide +kernel)

/-- The ninth packet has the sequence number of the first. -/
theorem link_unmixed_nine : (∀ d ∈ origins online nine, FromOne d) ↔
    Clear none (passages online.txSeqCtr (sends nine)) :=
  (link_unmixed_iff listening_nine).2

/-- **Fourteen in a row are too many**: a half of the first packet and one of the ninth are passed
up as a packet, and the ninth, read in full, is not. -/
theorem fourteen_lost :
    ¬ List.replicate 15 false <:+: (sends nine).flatMap Transmission.fates ∧
      Runs.outputs Event.step Event.delivered online threeHalves = [0 :: List.replicate 254 0] ∧
      ¬ Clear none (passages online.txSeqCtr (sends nine)) := by
  decide +kernel

end Thicket.Radio
