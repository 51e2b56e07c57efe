import Mathlib.Tactic.Common
import Thicket.Base.Runs

/-! # Messages in two halves

A message travels as one part, or as two halves under a tag of their own; tags come round again.
The receiver keeps one half and joins it to the next part, if that is a half with the same tag.
Over any stream it joins neighbours only, and uses no part twice. Over a channel that loses parts
it delivers the messages that arrive in full, unless a half meets one of another message. -/

namespace Thicket.Reassembly

open scoped List

variable {κ α β : Type*}

/-- What arrives at the receiver. -/
inductive Part (κ α : Type*) where
  /-- A message in one part. -/
  | whole (a : α)
  /-- One half of a message. -/
  | half (tag : κ) (a : α)

/-- A part with another payload. -/
def Part.map (f : α → β) : Part κ α → Part κ β
  | .whole a => .whole (f a)
  | .half t a => .half t (f a)

/-- The half that waits for its other, with its tag. -/
abbrev Pending (κ α : Type*) : Type _ := Option (κ × α)

/-- What waits. -/
def Pending.payloads (p : Pending κ α) : List α := (p.map Prod.snd).toList

/-- **Deliveries are cut out of the parts**: in their order, each is a part of its own or two
neighbouring halves under one tag; no part is in two of them, and only halves are left out. -/
inductive Cut : List (Part κ α) → List (List α) → Prop
  /-- No parts. -/
  | nil : Cut [] []
  /-- A part of its own. -/
  | whole (a : α) {parts : List (Part κ α)} {ds : List (List α)} :
      Cut parts ds → Cut (.whole a :: parts) ([a] :: ds)
  /-- Two halves that are joined. -/
  | join (t : κ) (a b : α) {parts : List (Part κ α)} {ds : List (List α)} :
      Cut parts ds → Cut (.half t a :: .half t b :: parts) ([a, b] :: ds)
  /-- A half that is left out. -/
  | drop (t : κ) (a : α) {parts : List (Part κ α)} {ds : List (List α)} :
      Cut parts ds → Cut (.half t a :: parts) ds

/-- The parts that stand for a half that waits. -/
def Pending.parts (p : Pending κ α) : List (Part κ α) := (p.map fun q => Part.half q.1 q.2).toList

/-- The half that waits is left out. -/
theorem Cut.pending {parts : List (Part κ α)} {ds : List (List α)} (h : Cut parts ds)
    (p : Pending κ α) : Cut (p.parts ++ parts) ds := by
  cases p with
  | none => exact h
  | some q => exact h.drop q.1 q.2

section Receiver

variable [DecidableEq κ]

/-- **The receiver**: a part of its own ends the waiting, a half is joined or waits in its turn. -/
def step (p : Pending κ α) : Part κ α → Pending κ α
  | .whole _ => none
  | .half t a => if p.map Prod.fst = some t then none else some (t, a)

/-- What a part delivers: the payloads that are put together. -/
def out (p : Pending κ α) : Part κ α → List (List α)
  | .whole a => [[a]]
  | .half t a => if p.map Prod.fst = some t then [p.payloads ++ [a]] else []

/-- What a stream of parts delivers. -/
def delivered (p : Pending κ α) (parts : List (Part κ α)) : List (List α) :=
  Runs.outputs step out p parts

@[simp] theorem delivered_nil (p : Pending κ α) : delivered p [] = [] := rfl

@[simp] theorem delivered_cons (p : Pending κ α) (x : Part κ α) (xs : List (Part κ α)) :
    delivered p (x :: xs) = out p x ++ delivered (step p x) xs := rfl

@[simp] theorem delivered_append (p : Pending κ α) (xs ys : List (Part κ α)) :
    delivered p (xs ++ ys) = delivered p xs ++ delivered (Runs.run step p xs) ys :=
  Runs.outputs_append step out p xs ys

/-- **The receiver looks at tags only.** -/
theorem delivered_map (f : α → β) (p : Pending κ α) (parts : List (Part κ α)) :
    delivered (p.map (Prod.map id f)) (parts.map (Part.map f))
      = (delivered p parts).map (List.map f) := by
  induction parts generalizing p with
  | nil => rfl
  | cons x xs ih =>
    have htag : (p.map (Prod.map id f)).map Prod.fst = p.map Prod.fst := by
      rw [Option.map_map]
      rfl
    have hstep : step (p.map (Prod.map id f)) (x.map f) = (step p x).map (Prod.map id f) := by
      cases x with
      | whole a => rfl
      | half t a =>
        simp only [Part.map, step, htag]
        split <;> rfl
    have hout : out (p.map (Prod.map id f)) (x.map f) = (out p x).map (List.map f) := by
      cases x with
      | whole a => rfl
      | half t a =>
        simp only [Part.map, out, htag]
        split
        · cases p <;> rfl
        · rfl
    rw [List.map_cons, delivered_cons, delivered_cons, List.map_append, hstep, hout, ih]

/-! ## Any stream -/

/-- With the half that waits put in front of the stream. -/
theorem cut_pending_delivered (p : Pending κ α) (parts : List (Part κ α)) :
    Cut (p.parts ++ parts) (delivered p parts) := by
  induction parts generalizing p with
  | nil => exact Cut.nil.pending p
  | cons x xs ih =>
    rw [delivered_cons]
    cases x with
    | whole a => exact ((ih none).whole a).pending p
    | half t a =>
      by_cases ht : p.map Prod.fst = some t
      · obtain ⟨⟨t', b⟩, rfl, rfl⟩ := Option.map_eq_some_iff.mp ht
        rw [out, step, if_pos ht, if_pos ht]
        exact (ih none).join t' b a
      · rw [out, step, if_neg ht, if_neg ht]
        exact (ih (some (t, a))).pending p

/-- **Only neighbours are joined**, only under one tag, and no part is used twice. -/
theorem cut_delivered (parts : List (Part κ α)) : Cut parts (delivered none parts) :=
  cut_pending_delivered none parts

end Receiver

/-! ## A channel that loses parts -/

/-- A message on its way, and which parts of it arrive. -/
inductive Passage (κ α : Type*) where
  /-- A message in one part. -/
  | single (a : α) (arrives : Bool)
  /-- A message in two halves. -/
  | split (tag : κ) (a b : α) (first second : Bool)

namespace Passage

/-- The parts that arrive. -/
def arrived : Passage κ α → List (Part κ α)
  | single a ok => if ok then [.whole a] else []
  | split t a b ok₁ ok₂ => (if ok₁ then [.half t a] else []) ++ if ok₂ then [.half t b] else []

/-- The message, if it arrives in full. -/
def complete : Passage κ α → List (List α)
  | single a ok => if ok then [[a]] else []
  | split _ a b ok₁ ok₂ => if ok₁ && ok₂ then [[a, b]] else []

/-- What became of each part. -/
def fates : Passage κ α → List Bool
  | single _ ok => [ok]
  | split _ _ _ ok₁ ok₂ => [ok₁, ok₂]

/-- What waits behind a message: a half whose other was lost. -/
def after (p : Pending κ α) : Passage κ α → Pending κ α
  | single _ ok => if ok then none else p
  | split t a b ok₁ ok₂ =>
      if ok₁ && ok₂ then none else if ok₁ then some (t, a) else if ok₂ then some (t, b) else p

/-- The tag of what waits behind a message. -/
def waiting (w : Option κ) : Passage κ α → Option κ
  | single _ ok => if ok then none else w
  | split t _ _ ok₁ ok₂ => if ok₁ && ok₂ then none else if ok₁ || ok₂ then some t else w

/-- No half of the message meets a half with its tag that waits for another. -/
def Unmet (w : Option κ) : Passage κ α → Prop
  | single _ _ => True
  | split t _ _ ok₁ ok₂ => (ok₁ || ok₂) = true → w ≠ some t

/-- A message with other contents. -/
def map (f : α → β) : Passage κ α → Passage κ β
  | single a ok => .single (f a) ok
  | split t a b ok₁ ok₂ => .split t (f a) (f b) ok₁ ok₂

/-- The tag of the half that waits. -/
theorem after_map_fst (p : Pending κ α) (q : Passage κ α) :
    (q.after p).map Prod.fst = q.waiting (p.map Prod.fst) := by
  cases q with
  | single a ok => cases ok <;> rfl
  | split t a b ok₁ ok₂ => cases ok₁ <;> cases ok₂ <;> rfl

@[simp] theorem waiting_map (f : α → β) (w : Option κ) (q : Passage κ α) :
    (q.map f).waiting w = q.waiting w := by
  cases q <;> rfl

@[simp] theorem unmet_map (f : α → β) {w : Option κ} (q : Passage κ α) :
    (q.map f).Unmet w ↔ q.Unmet w := by
  cases q <;> rfl

end Passage

open Passage

/-- **No half meets one of another message**, from the tag of a half that waits on. -/
def Clear (w : Option κ) (ps : List (Passage κ α)) : Prop := Runs.Along waiting Unmet w ps

instance [DecidableEq κ] (w : Option κ) : (q : Passage κ α) → Decidable (q.Unmet w)
  | .single _ _ => isTrue trivial
  | .split t _ _ ok₁ ok₂ => inferInstanceAs (Decidable ((ok₁ || ok₂) = true → w ≠ some t))

instance [DecidableEq κ] (w : Option κ) (ps : List (Passage κ α)) : Decidable (Clear w ps) :=
  Runs.instDecidableAlong w ps

section Lossy

variable [DecidableEq κ] {p : Pending κ α}

/-- **One message**: what arrives of it delivers it if it is complete, and leaves the half that is
not. -/
theorem delivered_arrived {q : Passage κ α} (h : q.Unmet (p.map Prod.fst)) :
    Runs.run step p q.arrived = q.after p ∧ delivered p q.arrived = q.complete := by
  cases q with
  | single a ok => cases ok <;> simp [arrived, after, complete, step, out]
  | split t a b ok₁ ok₂ =>
    cases ok₁ with
    | true =>
      have ht : p.map Prod.fst ≠ some t := h rfl
      cases ok₂ <;> simp [arrived, after, complete, step, out, ht, Pending.payloads]
    | false =>
      cases ok₂ with
      | true =>
        have ht : p.map Prod.fst ≠ some t := h rfl
        simp [arrived, after, complete, step, out, ht]
      | false => simp [arrived, after, complete]

/-- **Nothing but the complete messages, each once and in order**, as long as no half meets one of
another message. -/
theorem delivered_eq_complete {ps : List (Passage κ α)} (h : Clear (p.map Prod.fst) ps) :
    delivered p (ps.flatMap arrived) = ps.flatMap complete := by
  induction ps generalizing p with
  | nil => rfl
  | cons q qs ih =>
    obtain ⟨hrun, hout⟩ := delivered_arrived h.1
    have hrest : Clear ((q.after p).map Prod.fst) qs := (after_map_fst p q).symm ▸ h.2
    rw [List.flatMap_cons, List.flatMap_cons, delivered_append, hrun, hout, ih hrest]

end Lossy

/-! ## Which halves are joined -/

/-- All of a delivery is of one message. -/
def FromOne (d : List (Nat × α)) : Prop := ∀ x ∈ d, ∀ y ∈ d, x.1 = y.1

/-- The payloads with the number of their message. -/
def label : Nat → List (Passage κ α) → List (Passage κ (Nat × α))
  | _, [] => []
  | n, q :: qs => q.map (Prod.mk n) :: label (n + 1) qs

/-- Without the numbers the same parts arrive. -/
theorem map_snd_arrived_label (n : Nat) (ps : List (Passage κ α)) :
    ((label n ps).flatMap arrived).map (Part.map Prod.snd) = ps.flatMap arrived := by
  induction ps generalizing n with
  | nil => rfl
  | cons q qs ih =>
    have hone : ((q.map (Prod.mk n)).arrived).map (Part.map Prod.snd) = q.arrived := by
      cases q with
      | single a ok => cases ok <;> rfl
      | split t a b ok₁ ok₂ => cases ok₁ <;> cases ok₂ <;> rfl
    rw [label, List.flatMap_cons, List.flatMap_cons, List.map_append, hone, ih]

/-- The labels of what waits behind a message. -/
theorem after_lt {n : Nat} {p : Pending κ (Nat × α)} (hp : ∀ x ∈ p, x.2.1 < n)
    (q : Passage κ α) : ∀ x ∈ (q.map (Prod.mk n)).after p, x.2.1 < n + 1 := by
  intro x hx
  have hle : ∀ x ∈ p, x.2.1 < n + 1 := fun x hx => Nat.lt_succ_of_lt (hp x hx)
  cases q with
  | single a ok =>
    cases ok with
    | true => cases hx
    | false => exact hle x hx
  | split t a b ok₁ ok₂ =>
    cases ok₁ <;> cases ok₂
    · exact hle x hx
    · obtain rfl := Option.mem_some_iff.mp hx
      exact Nat.lt_succ_self n
    · obtain rfl := Option.mem_some_iff.mp hx
      exact Nat.lt_succ_self n
    · cases hx

/-- A complete message is one message. -/
theorem fromOne_of_mem_complete {n : Nat} {q : Passage κ α} {d : List (Nat × α)}
    (h : d ∈ (q.map (Prod.mk n)).complete) : FromOne d := by
  have hlabel : ∀ x ∈ d, x.1 = n := by
    cases q with
    | single a ok => cases ok <;> simp_all [Passage.map, complete]
    | split t a b ok₁ ok₂ => cases ok₁ <;> cases ok₂ <;> simp_all [Passage.map, complete]
  exact fun x hx y hy => (hlabel x hx).trans (hlabel y hy).symm

section Origins

variable [DecidableEq κ]

/-- A half that meets one of an earlier message is joined to it. -/
theorem exists_not_fromOne {n : Nat} {p : Pending κ (Nat × α)} (hp : ∀ x ∈ p, x.2.1 < n)
    {q : Passage κ α} (h : ¬ q.Unmet (p.map Prod.fst)) :
    ∃ d ∈ delivered p (q.map (Prod.mk n)).arrived, ¬ FromOne d := by
  cases q with
  | single a ok => exact absurd trivial h
  | split t a b ok₁ ok₂ =>
    obtain ⟨hok, hmeets⟩ : (ok₁ || ok₂) = true ∧ p.map Prod.fst = some t := by
      simpa [Unmet] using h
    obtain ⟨⟨t', m, x⟩, rfl, rfl⟩ := Option.map_eq_some_iff.mp hmeets
    have hlt : m < n := hp _ rfl
    have hmixed (y : α) : ¬ FromOne [(m, x), (n, y)] := by
      intro hone
      exact Nat.ne_of_lt hlt (hone (m, x) (by simp) (n, y) (by simp))
    cases ok₁ with
    | true =>
      exact ⟨[(m, x), (n, a)], by simp [Passage.map, arrived, out, Pending.payloads], hmixed a⟩
    | false =>
      obtain rfl : ok₂ = true := by simpa using hok
      exact ⟨[(m, x), (n, b)], by simp [Passage.map, arrived, out, Pending.payloads], hmixed b⟩

/-- With a half of an earlier message waiting. -/
theorem forall_fromOne_iff_of_lt {n : Nat} {p : Pending κ (Nat × α)} (hp : ∀ x ∈ p, x.2.1 < n)
    (ps : List (Passage κ α)) :
    (∀ d ∈ delivered p ((label n ps).flatMap arrived), FromOne d) ↔
      Clear (p.map Prod.fst) ps := by
  induction ps generalizing n p with
  | nil => simp [label, Clear]
  | cons q qs ih =>
    rw [label, List.flatMap_cons, delivered_append, Clear, Runs.along_cons]
    by_cases h : q.Unmet (p.map Prod.fst)
    · obtain ⟨hrun, hout⟩ := delivered_arrived ((unmet_map (Prod.mk n) q).mpr h)
      rw [hrun, hout, List.forall_mem_append, ih (after_lt hp q), after_map_fst, waiting_map]
      exact and_congr_left fun _ => iff_of_true (fun d hd => fromOne_of_mem_complete hd) h
    · obtain ⟨d, hd, hmixed⟩ := exists_not_fromOne hp h
      exact iff_of_false (fun hall => hmixed (hall d (List.mem_append_left _ hd))) fun hall =>
        h hall.1

/-- **No two messages are mixed exactly when no half meets one of another message.** -/
theorem forall_fromOne_iff (ps : List (Passage κ α)) :
    (∀ d ∈ delivered none ((label 0 ps).flatMap arrived), FromOne d) ↔ Clear none ps :=
  forall_fromOne_iff_of_lt (p := none) (by simp) ps

end Origins

/-! ## Tags that come round -/

/-- The tags of messages in two halves are counted up from `c`. -/
def Numbered (tag : Nat → κ) : Nat → List (Passage κ α) → Prop
  | _, [] => True
  | c, .single _ _ :: ps => Numbered tag c ps
  | c, .split t _ _ _ _ :: ps => t = tag c ∧ Numbered tag (c + 1) ps

/-- As many parts in a row are lost, the first `k` of them before these. -/
def Burst (b k : Nat) (fates : List Bool) : Prop :=
  List.replicate b false <:+: List.replicate k false ++ fates

/-- A lost part makes the row before longer. -/
theorem burst_succ {b k : Nat} {fates : List Bool} :
    Burst b (k + 1) fates ↔ Burst b k (false :: fates) := by
  rw [Burst, Burst, List.replicate_succ', List.append_assoc]
  rfl

/-- What comes later is a burst as well. -/
theorem Burst.of_tail {b k : Nat} {x : Bool} {fates : List Bool} (h : Burst b 0 fates) :
    Burst b k (x :: fates) := by
  refine List.IsInfix.trans h ⟨List.replicate k false ++ [x], [], ?_⟩
  simp

/-- A row that is long enough is a burst, whatever comes. -/
theorem burst_of_le {b k : Nat} (h : b ≤ k) (fates : List Bool) : Burst b k fates := by
  obtain ⟨m, rfl⟩ := Nat.exists_eq_add_of_le h
  refine ⟨[], List.replicate m false ++ fates, ?_⟩
  rw [List.nil_append, ← List.append_assoc, List.replicate_append_replicate]

/-- A half waits, and since then its row of losses covers the messages up to number `c`. -/
def WaitsSince (tag : Nat → κ) (c k : Nat) (w : Option κ) : Prop :=
  ∀ t ∈ w, ∃ i < c, t = tag i ∧ 2 * (c - (i + 1)) ≤ k

/-- Nothing waits. -/
theorem waitsSince_none (tag : Nat → κ) (c k : Nat) : WaitsSince tag c k none := by
  simp [WaitsSince]

/-- With `k` parts lost in a row, and a half that waits since. -/
theorem clear_of_not_burst {tag : Nat → κ} {n : Nat}
    (htag : ∀ i j, i < j → j < i + n → tag i ≠ tag j) {ps : List (Passage κ α)} {c k : Nat}
    {w : Option κ} (hnum : Numbered tag c ps) (hw : WaitsSince tag c k w)
    (hburst : ¬ Burst (2 * (n - 1)) k (ps.flatMap fates)) : Clear w ps := by
  induction ps generalizing c k w with
  | nil => trivial
  | cons q qs ih =>
    cases q with
    | single a ok =>
      refine ⟨trivial, ?_⟩
      cases ok with
      | true => exact ih hnum (waitsSince_none tag c 0) fun h => hburst h.of_tail
      | false =>
        refine ih (k := k + 1) hnum (fun t ht => ?_) fun h => hburst (burst_succ.mp h)
        obtain ⟨i, hi, hti, hle⟩ := hw t ht
        exact ⟨i, hi, hti, Nat.le_succ_of_le hle⟩
    | split t a b ok₁ ok₂ =>
      obtain ⟨rfl, hnum⟩ := hnum
      have hk : k < 2 * (n - 1) := by
        by_contra hle
        exact hburst (burst_of_le (Nat.not_lt.mp hle) _)
      have hunmet : (Passage.split (tag c) a b ok₁ ok₂).Unmet w := by
        intro _ hmeets
        obtain ⟨i, hi, hti, hle⟩ := hw (tag c) hmeets
        exact htag i c hi (by omega) hti.symm
      refine ⟨hunmet, ?_⟩
      -- a half that arrives waits from here on, and no message has passed since
      have hwaits (k' : Nat) : WaitsSince tag (c + 1) k' (some (tag c)) := by
        intro t ht
        obtain rfl := Option.mem_some_iff.mp ht
        exact ⟨c, Nat.lt_succ_self c, rfl, by omega⟩
      cases ok₁ with
      | true =>
        cases ok₂ with
        | true =>
          exact ih (k := 0) hnum (waitsSince_none tag (c + 1) 0) fun h =>
            hburst (Burst.of_tail (Burst.of_tail (k := 0) h))
        | false =>
          exact ih (k := 1) hnum (hwaits 1) fun h => hburst (Burst.of_tail (burst_succ.mp h))
      | false =>
        cases ok₂ with
        | true =>
          exact ih (k := 0) hnum (hwaits 0) fun h =>
            hburst (Burst.of_tail (Burst.of_tail (k := 0) h))
        | false =>
          refine ih (k := k + 2) hnum (fun t ht => ?_) fun h =>
            hburst (burst_succ.mp (burst_succ.mp h))
          obtain ⟨i, hi, hti, hle⟩ := hw t ht
          exact ⟨i, by omega, hti, by omega⟩

/-- **Tags that come round after `n` messages** are enough as long as fewer than `2 (n - 1)` parts
in a row are lost. -/
theorem clear_of_not_isInfix {tag : Nat → κ} {n : Nat}
    (htag : ∀ i j, i < j → j < i + n → tag i ≠ tag j) {ps : List (Passage κ α)} {c : Nat}
    (hnum : Numbered tag c ps)
    (hburst : ¬ List.replicate (2 * (n - 1)) false <:+: ps.flatMap fates) : Clear none ps :=
  clear_of_not_burst htag (k := 0) hnum (waitsSince_none tag c 0) (by simpa [Burst] using hburst)

end Thicket.Reassembly
