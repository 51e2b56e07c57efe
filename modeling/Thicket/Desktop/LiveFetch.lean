import Thicket.Desktop.Browser

/-! # The live fetch

`desktop/LiveFetch.cpp`: one page over the mesh, made synchronous. The network library calls back
while it is polled and the callbacks write file-static state, so a callback that is late meets the
fetch after its own. How often a loop polls before its deadline, what the library calls back with at
each turn, what it recalls and which status it reports are part of a call. -/

namespace Thicket.Desktop

variable {Identity : Type*}

/-! ## The library -/

/-- What is used of the library and of MsgPack. -/
structure Rns where
  /-- `Bytes::toHex`. -/
  toHex : Str → Str
  /-- `isBin` and `deserialize`. -/
  unpackBin : Str → Option Str

/-- `RNS::RequestReceipt`: the link and the path of a request. Links are numbered as they are built.
-/
structure Receipt where
  /-- The link it went over. -/
  link : Nat
  /-- The path it asked for. -/
  path : Str
  deriving DecidableEq

/-- A call of the library into this file. -/
inductive NetCallback (Identity : Type*) where
  /-- `received_announce`. -/
  | announce (destinationHash : Str) (identity : Identity)
  /-- `on_link_established`. -/
  | linkEstablished (link : Nat)
  /-- `on_response`. -/
  | response (receipt : Receipt) (encoded : Str)
  /-- `on_failed`. -/
  | failed (receipt : Receipt)
  /-- `on_link_closed`. -/
  | linkClosed (link : Nat)

namespace NetCallback

/-- A link is up. -/
def establishes : NetCallback Identity → Bool
  | .linkEstablished _ => true
  | _ => false

/-- The wait is over. -/
def concludes : NetCallback Identity → Bool
  | .response _ _ | .failed _ | .linkClosed _ => true
  | _ => false

/-- The request has its outcome. -/
def settles : NetCallback Identity → Bool
  | .response _ _ | .failed _ => true
  | _ => false

end NetCallback

/-- The file-static state, and what the library knows of this file. -/
structure Fetcher (Identity : Type*) where
  /-- `g_ready`. -/
  ready : Bool := false
  /-- `g_known`. -/
  known : Str → Option Identity := fun _ => none
  /-- `g_link_up`. -/
  linkUp : Bool := false
  /-- `g_done`. -/
  done : Bool := false
  /-- `g_response`. -/
  response : Bool := false
  /-- `g_page`. -/
  page : Str := []
  /-- `g_path`. -/
  path : Str := []
  /-- The links that were built, by their destinations; `g_link` is the last. -/
  links : List Identity := []
  /-- The requests that were made. -/
  requests : List Receipt := []
  /-- The callbacks that came. -/
  heard : List (NetCallback Identity) := []

/-! ## Callbacks -/

/-- `std::tolower`. -/
def toLower (c : UInt8) : UInt8 := if 0x41 ≤ c ∧ c ≤ 0x5A then c + 0x20 else c

/-- `to_lower_hex`. -/
def toLowerHex (s : Str) : Str := s.map toLower

variable (L : Rns)

/-- The key of an announce in `g_known`. -/
def Rns.key (destinationHash : Str) : Str := toLowerHex (L.toHex destinationHash)

/-- `msgpack_unwrap_bin`. -/
def Rns.msgpackUnwrapBin (packed : Str) : Option Str :=
  if packed.length < 1 then none else L.unpackBin packed

/-- The page of a response. -/
def Rns.unwrapped (encoded : Str) : Str := (L.msgpackUnwrapBin encoded).getD encoded

namespace Fetcher

/-- `received_announce`. -/
def receivedAnnounce (f : Fetcher Identity) (destinationHash : Str) (identity : Identity) :
    Fetcher Identity :=
  { f with known := Function.update f.known (L.key destinationHash) (some identity) }

/-- `on_link_established`: the page is requested over that link. -/
def onLinkEstablished (f : Fetcher Identity) (link : Nat) : Fetcher Identity :=
  { f with linkUp := true, requests := f.requests ++ [⟨link, f.path⟩] }

/-- `on_response`. -/
def onResponse (f : Fetcher Identity) (encoded : Str) : Fetcher Identity :=
  { f with page := L.unwrapped encoded, response := true, done := true }

/-- `on_failed`. -/
def onFailed (f : Fetcher Identity) : Fetcher Identity := { f with response := false, done := true }

/-- `on_link_closed`. -/
def onLinkClosed (f : Fetcher Identity) : Fetcher Identity :=
  { f with done := if !f.response then true else f.done }

/-- The function that a callback runs. -/
def handle (f : Fetcher Identity) : NetCallback Identity → Fetcher Identity
  | .announce destinationHash identity => f.receivedAnnounce L destinationHash identity
  | .linkEstablished link => f.onLinkEstablished link
  | .response _ encoded => f.onResponse L encoded
  | .failed _ => f.onFailed
  | .linkClosed _ => f.onLinkClosed

/-- The library calls back for links that were built and for requests that were made. -/
def Possible (f : Fetcher Identity) : NetCallback Identity → Prop
  | .announce _ _ => True
  | .linkEstablished link | .linkClosed link => link < f.links.length
  | .response receipt _ | .failed receipt => receipt ∈ f.requests

instance (f : Fetcher Identity) : DecidablePred f.Possible
  | .announce _ _ => inferInstanceAs (Decidable True)
  | .linkEstablished link => inferInstanceAs (Decidable (link < f.links.length))
  | .linkClosed link => inferInstanceAs (Decidable (link < f.links.length))
  | .response receipt _ => inferInstanceAs (Decidable (receipt ∈ f.requests))
  | .failed receipt => inferInstanceAs (Decidable (receipt ∈ f.requests))

/-- One callback. -/
def deliver (f : Fetcher Identity) (e : NetCallback Identity) : Fetcher Identity :=
  if f.Possible e then { f.handle L e with heard := f.heard ++ [e] } else f

/-- `g_reticulum.loop()`, and whatever else gives the library the time to call back. -/
def loop (f : Fetcher Identity) (es : List (NetCallback Identity)) : Fetcher Identity :=
  Runs.run (deliver L) f es

end Fetcher

/-! ## The fetch -/

/-- `parse_target`: the hash, if there is an address, and what `path` is then. -/
def parseTarget (target path : Str) : Option Str × Str :=
  match target.findIdx? (· == colon) with
  | none => (none, path)
  | some c =>
      let h := target.take c
      if h.length < 8 then (none, path)
      else if !h.all isHexDigit then (none, path)
      else
        let path := target.drop (c + 1)
        (if path ≠ [] ∧ path.head? = some slash then some (toLowerHex h) else none, path)

/-- One turn of the discovery. -/
structure Look (Identity : Type*) where
  /-- What is called back. -/
  calls : List (NetCallback Identity)
  /-- `Identity::recall`. -/
  recalled : Option Identity

/-- One turn of the wait. -/
structure Turn (Identity : Type*) where
  /-- What is called back. -/
  calls : List (NetCallback Identity)
  /-- `status() == CLOSED`. -/
  closed : Bool

/-- A call of `live_fetch`, and what the library does in it. -/
structure Call (Identity : Type*) where
  /-- `target`. -/
  target : Str
  /-- The turns before `discover_deadline`. -/
  discovery : List (Look Identity)
  /-- The turns before `deadline`. -/
  waiting : List (Turn Identity)
  /-- `status() == CLOSED` behind the wait. -/
  closed : Bool
  /-- What `teardown` calls back. -/
  teardown : List (NetCallback Identity)
  /-- What is called back while the wire drains. -/
  draining : List (NetCallback Identity)

namespace Fetcher

/-- `ensure_ready`. -/
def ensureReady (f : Fetcher Identity) : Bool × Fetcher Identity := (true, { f with ready := true })

/-- The state of a fetch, reset. -/
def reset (f : Fetcher Identity) : Fetcher Identity :=
  { f with linkUp := false, done := false, response := false, page := [] }

/-- **The discovery**: the identity that was announced, or recalled. -/
def discover (hash : Str) : Fetcher Identity → List (Look Identity) →
    Option Identity × Fetcher Identity
  | f, [] => (none, f)
  | f, t :: ts =>
      let f := f.loop L t.calls
      match f.known hash with
      | some identity => (some identity, f)
      | none =>
          match t.recalled with
          | some identity => (some identity, f)
          | none => discover hash f ts

/-- **The wait** for the callbacks to conclude. -/
def await : Fetcher Identity → List (Turn Identity) → Fetcher Identity
  | f, [] => f
  | f, t :: ts =>
      if f.done then f
      else
        let f := f.loop L t.calls
        if t.closed && !f.response then f else await f ts

/-- The link is built, waited on, torn down unless it is closed, and drained. -/
def converse (f : Fetcher Identity) (identity : Identity) (c : Call Identity) : Fetcher Identity :=
  let f := { f with links := f.links ++ [identity] }
  let f := f.await L c.waiting
  let f := if c.closed then f else f.loop L c.teardown
  f.loop L c.draining

end Fetcher

/-- A failure and its reason. -/
def FetchResult.fail (error : Str) : FetchResult := { ok := false, page := [], error := error }

/-- A page. -/
def FetchResult.fetched (page : Str) : FetchResult := { ok := true, page := page, error := [] }

/-- `(int)(timeout_s * 0.5)` for the timeout that the browser leaves at its default. -/
def discoverSeconds : Nat := 15

/-- What a fetch returns for a node that was found. -/
def Fetcher.result (f : Fetcher Identity) (hash : Str) : FetchResult :=
  if f.response ∧ 0 < f.page.length then .fetched f.page
  else if !f.linkUp then .fail (lit "link to " ++ hash ++ lit " never established")
  else if !f.done then .fail (lit "page request timed out")
  else .fail (lit "page request failed (peer refused, gone, or over the size cap)")

/-- **`live_fetch`**. -/
def Fetcher.liveFetch (f : Fetcher Identity) (c : Call Identity) :
    FetchResult × Fetcher Identity :=
  match parseTarget c.target f.path with
  | (none, path) =>
      (.fail (lit "link has no mesh address to fetch: " ++ c.target), { f with path := path })
  | (some hash, path) =>
      let (up, f) := { f with path := path }.ensureReady
      if !up then (.fail (lit "could not bring up the network stack"), f)
      else
        match f.reset.discover L hash c.discovery with
        | (none, f) =>
            (.fail (lit "no route to " ++ hash ++ lit " (no announce or path within "
              ++ lit (toString discoverSeconds) ++ lit "s)"), f)
        | (some identity, f) =>
            let f := f.converse L identity c
            (f.result hash, f)

/-- **A session** of fetches, from the start of the browser. -/
def fetches (cs : List (Call Identity)) : Fetcher Identity :=
  Runs.run (fun f c => (f.liveFetch L c).2) {} cs

/-! ## Addresses -/

/-- A target names a node, by eight or more hex digits, and a page of it. -/
def Addresses (target hash path : Str) : Prop :=
  ∃ h, target = h ++ colon :: path ∧ 8 ≤ h.length ∧ h.all isHexDigit ∧
    path.head? = some slash ∧ hash = toLowerHex h

/-- No hex digit is a colon. -/
theorem ne_colon {c : UInt8} (h : isHexDigit c = true) : (c == colon) = false := by
  rw [beq_eq_false_iff_ne]
  rintro rfl
  exact absurd h (by decide)

/-- The first colon of a target that begins with hex digits. -/
theorem findIdx?_colon {h : Str} (hhex : h.all isHexDigit) (rest : Str) :
    (h ++ colon :: rest).findIdx? (· == colon) = some h.length := by
  rw [List.findIdx?_eq_some_iff_getElem]
  refine ⟨by simp, by simp, fun j hj => ?_⟩
  rw [List.getElem_append_left hj, ne_colon (List.all_eq_true.mp hhex _ (List.getElem_mem hj))]
  exact Bool.false_ne_true

/-- **`parse_target`** accepts the addresses. -/
theorem parseTarget_addresses {target hash path : Str} (h : Addresses target hash path)
    (old : Str) : parseTarget target old = (some hash, path) := by
  obtain ⟨h, rfl, hlen, hhex, hslash, rfl⟩ := h
  have hne : path ≠ [] := by
    rintro rfl
    cases hslash
  rw [parseTarget, findIdx?_colon hhex]
  dsimp only
  rw [List.take_left, List.drop_length_add_append, if_neg (Nat.not_lt.mpr hlen), hhex]
  simp [hne, hslash]

/-- What it accepts is an address. -/
theorem addresses_of_parseTarget {target old hash path : Str}
    (h : parseTarget target old = (some hash, path)) : Addresses target hash path := by
  unfold parseTarget at h
  split at h
  · cases h
  next c hc =>
    dsimp only at h
    split at h
    · cases h
    next hlen =>
      split at h
      · cases h
      next hhex =>
        obtain ⟨hlt, hcolon, -⟩ := List.findIdx?_eq_some_iff_getElem.mp hc
        rw [Prod.mk.injEq] at h
        obtain ⟨hhash, rfl⟩ := h
        split at hhash
        · next hpath =>
          refine ⟨target.take c, ?_, by omega, by simpa using hhex, hpath.2,
            by simpa using hhash.symm⟩
          conv_lhs => rw [← List.take_append_drop c target, List.drop_eq_getElem_cons hlt,
            beq_iff_eq.mp hcolon]
        · cases hhash

/-! ## What the callbacks amount to -/

/-- What one callback makes of the answer. -/
def Rns.answer (a : Option Str) : NetCallback Identity → Option Str
  | .response _ encoded => some (L.unwrapped encoded)
  | .failed _ => none
  | _ => a

/-- The answer behind some callbacks: that of the last response, unless a failure followed. -/
def Rns.answered (es : List (NetCallback Identity)) : Option Str := es.foldl L.answer none

variable {L}

@[simp] theorem answered_nil : L.answered ([] : List (NetCallback Identity)) = none := rfl

@[simp] theorem answered_concat (es : List (NetCallback Identity)) (e : NetCallback Identity) :
    L.answered (es ++ [e]) = L.answer (L.answered es) e := by
  rw [Rns.answered, Rns.answered, List.foldl_append, List.foldl_cons, List.foldl_nil]

/-- **An answer is the last response**, unwrapped: nothing else settled the request since. -/
theorem exists_response {es : List (NetCallback Identity)} {page : Str}
    (h : L.answered es = some page) :
    ∃ before receipt encoded since, es = before ++ .response receipt encoded :: since ∧
      (∀ e ∈ since, e.settles = false) ∧ page = L.unwrapped encoded := by
  induction es using List.reverseRecOn with
  | nil => cases h
  | append_singleton es e ih =>
    have hlater (hsettles : e.settles = false) (h : L.answered es = some page) :
        ∃ before receipt encoded since,
          es ++ [e] = before ++ .response receipt encoded :: since ∧
          (∀ e ∈ since, e.settles = false) ∧ page = L.unwrapped encoded := by
      obtain ⟨before, receipt, encoded, since, rfl, hsince, hpage⟩ := ih h
      refine ⟨before, receipt, encoded, since ++ [e], ?_, ?_, hpage⟩
      · rw [List.append_assoc, List.cons_append]
      · exact List.forall_mem_append.mpr ⟨hsince, by simpa using hsettles⟩
    rw [answered_concat] at h
    cases e with
    | response receipt encoded =>
      exact ⟨es, receipt, encoded, [], rfl, by simp, (Option.some.inj h).symm⟩
    | failed receipt => cases h
    | announce destinationHash identity => exact hlater rfl h
    | linkEstablished link => exact hlater rfl h
    | linkClosed link => exact hlater rfl h

/-- What holds between two fetches and within them: the known nodes are those whose announce was
heard, and every request went over a link that was built. -/
structure Fetcher.Sound (L : Rns) (f : Fetcher Identity) : Prop where
  /-- A known node was announced. -/
  announced : ∀ hash identity, f.known hash = some identity →
    ∃ destinationHash, .announce destinationHash identity ∈ f.heard ∧ L.key destinationHash = hash
  /-- A node that was announced is known. -/
  known : ∀ destinationHash identity, .announce destinationHash identity ∈ f.heard →
    f.known (L.key destinationHash) ≠ none
  /-- A request went over a link. -/
  requests : ∀ r ∈ f.requests, r.link < f.links.length

/-- **Within a fetch** that began in `f₀`: what the state says of the callbacks `es` since then. -/
structure Fetcher.During (L : Rns) (f₀ : Fetcher Identity) (es : List (NetCallback Identity))
    (f : Fetcher Identity) : Prop where
  /-- These are the callbacks. -/
  heard : f.heard = f₀.heard ++ es
  /-- The path stands. -/
  path : f.path = f₀.path
  /-- `g_link_up`. -/
  linkUp : f.linkUp = es.any NetCallback.establishes
  /-- `g_done`. -/
  done : f.done = es.any NetCallback.concludes
  /-- `g_response`. -/
  response : f.response = (L.answered es).isSome
  /-- `g_page`. -/
  page : ∀ page, L.answered es = some page → f.page = page
  /-- A response concludes. -/
  concluded : f.response = true → f.done = true
  /-- What is requested is the path. -/
  requests : ∀ r ∈ f.requests, r ∈ f₀.requests ∨ r.path = f₀.path
  /-- What is answered was requested. -/
  asked : ∀ receipt encoded, .response receipt encoded ∈ es → receipt ∈ f.requests

namespace Fetcher

variable {f f₀ : Fetcher Identity} {es : List (NetCallback Identity)}

variable (L) in
@[simp] theorem links_deliver (f : Fetcher Identity) (e : NetCallback Identity) :
    (f.deliver L e).links = f.links := by
  unfold deliver
  split
  · cases e <;> rfl
  · rfl

/-- **One callback** keeps what holds throughout. -/
theorem Sound.deliver (h : f.Sound L) (e : NetCallback Identity) : (f.deliver L e).Sound L := by
  unfold Fetcher.deliver
  split
  next hpossible =>
    cases e with
    | announce destinationHash identity =>
      constructor
      · intro hash known hknown
        by_cases hkey : hash = L.key destinationHash
        · subst hkey
          have hsame : known = identity := by simpa [handle, receivedAnnounce] using hknown.symm
          exact ⟨destinationHash, by simp [hsame], rfl⟩
        · obtain ⟨dest, hmem, hdest⟩ := h.announced hash known
            (by simpa [handle, receivedAnnounce, hkey] using hknown)
          exact ⟨dest, List.mem_append_left _ hmem, hdest⟩
      · intro dest known hmem
        by_cases hkey : L.key dest = L.key destinationHash
        · simp [handle, receivedAnnounce, hkey]
        · rcases List.mem_append.mp hmem with hmem | hmem
          · simpa [handle, receivedAnnounce, hkey] using h.known dest known hmem
          · obtain ⟨rfl, rfl⟩ := by simpa using hmem
            exact absurd rfl hkey
      · exact h.requests
    | linkEstablished link =>
      refine ⟨?_, ?_, ?_⟩
      · simpa [handle, onLinkEstablished] using h.announced
      · simpa [handle, onLinkEstablished] using h.known
      · intro r hr
        rcases List.mem_append.mp hr with hr | hr
        · exact h.requests r hr
        · obtain rfl := List.mem_singleton.mp hr
          exact hpossible
    | response receipt encoded =>
      exact ⟨by simpa [handle, onResponse] using h.announced,
        by simpa [handle, onResponse] using h.known, h.requests⟩
    | failed receipt =>
      exact ⟨by simpa [handle, onFailed] using h.announced,
        by simpa [handle, onFailed] using h.known, h.requests⟩
    | linkClosed link =>
      exact ⟨by simpa [handle, onLinkClosed] using h.announced,
        by simpa [handle, onLinkClosed] using h.known, h.requests⟩
  · exact h

/-- **One callback** within a fetch. -/
theorem During.deliver (h : During L f₀ es f) (e : NetCallback Identity) :
    ∃ es', During L f₀ es' (f.deliver L e) := by
  unfold Fetcher.deliver
  split
  next hpossible =>
    refine ⟨es ++ [e], ?_⟩
    have hheard : f.heard ++ [e] = f₀.heard ++ (es ++ [e]) := by
      rw [h.heard, List.append_assoc]
    have hasked : ∀ receipt encoded, .response receipt encoded ∈ es ++ [e] →
        receipt ∈ f.requests := by
      intro receipt encoded hmem
      rcases List.mem_append.mp hmem with hmem | hmem
      · exact h.asked receipt encoded hmem
      · obtain rfl := List.mem_singleton.mp hmem
        exact hpossible
    cases e with
    | announce destinationHash identity =>
      exact ⟨hheard, h.path, by simp [handle, receivedAnnounce, h.linkUp, NetCallback.establishes],
        by simp [handle, receivedAnnounce, h.done, NetCallback.concludes],
        by simp [handle, receivedAnnounce, h.response, Rns.answer],
        fun page hpage => h.page page (by simpa [Rns.answer] using hpage), h.concluded,
        h.requests, hasked⟩
    | linkEstablished link =>
      refine ⟨hheard, h.path, by simp [handle, onLinkEstablished, NetCallback.establishes],
        by simp [handle, onLinkEstablished, h.done, NetCallback.concludes],
        by simp [handle, onLinkEstablished, h.response, Rns.answer],
        fun page hpage => h.page page (by simpa [Rns.answer] using hpage), h.concluded, ?_, ?_⟩
      · intro r hr
        rcases List.mem_append.mp hr with hr | hr
        · exact h.requests r hr
        · obtain rfl := List.mem_singleton.mp hr
          exact .inr h.path
      · exact fun receipt encoded hmem => List.mem_append_left _ (hasked receipt encoded hmem)
    | response receipt encoded =>
      exact ⟨hheard, h.path, by simp [handle, onResponse, h.linkUp, NetCallback.establishes],
        by simp [handle, onResponse, NetCallback.concludes],
        by simp [handle, onResponse, Rns.answer],
        by simp [handle, onResponse, Rns.answer], fun _ => rfl, h.requests, hasked⟩
    | failed receipt =>
      exact ⟨hheard, h.path, by simp [handle, onFailed, h.linkUp, NetCallback.establishes],
        by simp [handle, onFailed, NetCallback.concludes],
        by simp [handle, onFailed, Rns.answer],
        by simp [Rns.answer], fun _ => rfl, h.requests, hasked⟩
    | linkClosed link =>
      -- a link that closes behind a response has nothing to conclude
      have hdone : (f.onLinkClosed).done = true := by
        simp only [onLinkClosed]
        split
        · rfl
        next hresponse => exact h.concluded (by simpa using hresponse)
      exact ⟨hheard, h.path, by simp [handle, onLinkClosed, h.linkUp, NetCallback.establishes],
        by simp [handle, hdone, NetCallback.concludes],
        by simp [handle, onLinkClosed, h.response, Rns.answer],
        fun page hpage => h.page page (by simpa [Rns.answer] using hpage), fun _ => hdone,
        h.requests, hasked⟩
  · exact ⟨es, h⟩

/-! ## What a fetch keeps -/

section Invariant

variable {I : Fetcher Identity → Prop} (hstep : ∀ f e, I f → I (f.deliver L e))

include hstep

/-- **Invariant rule.** What every callback keeps, a poll keeps. -/
theorem loop_invariant (h : I f) (calls : List (NetCallback Identity)) : I (f.loop L calls) :=
  Runs.run_invariant I hstep h calls

/-- What every callback keeps, the discovery keeps. -/
theorem discover_invariant (h : I f) (hash : Str) (ts : List (Look Identity)) :
    I (f.discover L hash ts).2 := by
  induction ts generalizing f with
  | nil => exact h
  | cons t ts ih =>
    have hpoll : I (f.loop L t.calls) := loop_invariant hstep h t.calls
    rw [discover]
    split
    · exact hpoll
    · split
      · exact hpoll
      · exact ih hpoll

/-- What every callback keeps, the wait keeps. -/
theorem await_invariant (h : I f) (ts : List (Turn Identity)) : I (f.await L ts) := by
  induction ts generalizing f with
  | nil => exact h
  | cons t ts ih =>
    have hpoll : I (f.loop L t.calls) := loop_invariant hstep h t.calls
    rw [await]
    dsimp only
    split
    · exact h
    · split
      · exact hpoll
      · exact ih hpoll

/-- What every callback keeps is kept from the building of the link on. -/
theorem converse_invariant {identity : Identity}
    (h : I { f with links := f.links ++ [identity] }) (c : Call Identity) :
    I (f.converse L identity c) := by
  have hwaited := await_invariant hstep h c.waiting
  rw [converse]
  split
  · exact loop_invariant hstep hwaited c.draining
  · exact loop_invariant hstep (loop_invariant hstep hwaited c.teardown) c.draining

end Invariant

/-- Callbacks that were heard stay heard. -/
theorem mem_heard_converse {x : NetCallback Identity} (h : x ∈ f.heard) (identity : Identity)
    (c : Call Identity) : x ∈ (f.converse L identity c).heard := by
  refine converse_invariant (I := fun g => x ∈ g.heard) (fun g e hg => ?_) h c
  unfold Fetcher.deliver
  split
  · exact List.mem_append_left _ hg
  · exact hg

variable (L) in
/-- The discovery builds no link. -/
theorem links_discover (f : Fetcher Identity) (hash : Str) (ts : List (Look Identity)) :
    (f.discover L hash ts).2.links = f.links :=
  discover_invariant (I := fun g => g.links = f.links) (fun g e h => (links_deliver L g e).trans h)
    rfl hash ts

variable (L) in
/-- One link is built. -/
theorem links_converse (f : Fetcher Identity) (identity : Identity) (c : Call Identity) :
    (f.converse L identity c).links = f.links ++ [identity] :=
  converse_invariant (I := fun g => g.links = f.links ++ [identity])
    (fun g e h => (links_deliver L g e).trans h) rfl c

/-- A link that is built leaves nothing requested without one. -/
theorem Sound.link (h : f.Sound L) (identity : Identity) :
    Sound L { f with links := f.links ++ [identity] } where
  announced := h.announced
  known := h.known
  requests := fun r hr => (h.requests r hr).trans_le (by simp)

/-- Building a link is no callback. -/
theorem During.link (h : During L f₀ es f) (identity : Identity) :
    During L f₀ es { f with links := f.links ++ [identity] } :=
  ⟨h.heard, h.path, h.linkUp, h.done, h.response, h.page, h.concluded, h.requests, h.asked⟩

/-- A fetch begins with nothing heard. -/
theorem During.reset (f : Fetcher Identity) : During L f.reset [] f.reset where
  heard := (List.append_nil _).symm
  path := rfl
  linkUp := rfl
  done := rfl
  response := rfl
  page := fun _ h => nomatch h
  concluded := id
  requests := fun _ => .inl
  asked := fun _ _ h => nomatch h

/-- What the discovery finds was announced, or recalled. -/
theorem discover_some {hash : Str} {ts : List (Look Identity)} {identity : Identity}
    (h : (f.discover L hash ts).1 = some identity) :
    (f.discover L hash ts).2.known hash = some identity ∨
      ∃ t ∈ ts, t.recalled = some identity := by
  induction ts generalizing f with
  | nil => cases h
  | cons t ts ih =>
    rw [discover] at h ⊢
    split at h
    next known hknown =>
      exact .inl (hknown.trans h)
    next hunknown =>
      split at h
      next recalled hrecalled =>
        exact .inr ⟨t, List.mem_cons_self, hrecalled.trans h⟩
      next hnot =>
        refine (ih h).imp_right fun ⟨t', ht', hrecalled⟩ => ?_
        exact ⟨t', List.mem_cons_of_mem t ht', hrecalled⟩

/-- Where it finds nothing, nothing is known or recalled at any turn. -/
theorem discover_none {hash : Str} {ts : List (Look Identity)}
    (h : (f.discover L hash ts).1 = none) :
    (∀ t ∈ ts, t.recalled = none) ∧ (ts ≠ [] → (f.discover L hash ts).2.known hash = none) := by
  induction ts generalizing f with
  | nil => simp
  | cons t ts ih =>
    rw [discover] at h ⊢
    split at h
    next => cases h
    next hunknown =>
      split at h
      next => cases h
      next hnot =>
        obtain ⟨hrecalled, hknown⟩ := ih h
        refine ⟨List.forall_mem_cons.mpr ⟨hnot, hrecalled⟩, fun _ => ?_⟩
        cases ts with
        | nil => exact hunknown
        | cons t' ts => exact hknown (List.cons_ne_nil t' ts)

end Fetcher

/-! ## What a fetch says -/

variable (L)

/-- **What a fetch says, and what it means**: `f` is the state before it, `f'` the state behind it,
and `heard` what was called back in between. -/
inductive Tells (c : Call Identity) (f f' : Fetcher Identity)
    (heard : List (NetCallback Identity)) : FetchResult → Prop
  /-- The target is no address. -/
  | noAddress (haddress : ∀ hash path, ¬ Addresses c.target hash path) :
      Tells c f f' heard (.fail (lit "link has no mesh address to fetch: " ++ c.target))
  /-- Nothing was recalled, and no announce of the node was ever heard. -/
  | noRoute {hash path : Str} (haddress : Addresses c.target hash path)
      (hrecalled : ∀ t ∈ c.discovery, t.recalled = none)
      (hheard : c.discovery ≠ [] → ∀ destinationHash identity,
        .announce destinationHash identity ∈ f'.heard → L.key destinationHash ≠ hash) :
      Tells c f f' heard (.fail (lit "no route to " ++ hash
        ++ lit " (no announce or path within " ++ lit (toString discoverSeconds) ++ lit "s)"))
  /-- No link came up. -/
  | neverEstablished {hash path : Str} (haddress : Addresses c.target hash path)
      (hdown : ∀ e ∈ heard, e.establishes = false) :
      Tells c f f' heard (.fail (lit "link to " ++ hash ++ lit " never established"))
  /-- A link came up, and nothing else. -/
  | timedOut {hash path : Str} (haddress : Addresses c.target hash path)
      (hup : ∃ e ∈ heard, e.establishes = true) (hopen : ∀ e ∈ heard, e.concludes = false) :
      Tells c f f' heard (.fail (lit "page request timed out"))
  /-- A link came up, and what concluded was a failure, a close or a page without a byte. -/
  | failed {hash path : Str} (haddress : Addresses c.target hash path)
      (hup : ∃ e ∈ heard, e.establishes = true) (hended : ∃ e ∈ heard, e.concludes = true)
      (hnone : ∀ page, L.answered heard = some page → page = []) :
      Tells c f f' heard
        (.fail (lit "page request failed (peer refused, gone, or over the size cap)"))
  /-- The page is that of the last response, behind which no failure came. Where that is one on the
  fetch's own link, it was asked for the path of the target, from the node that was announced, or
  recalled, under its hash. -/
  | fetched {hash path encoded : Str} {receipt : Receipt}
      {before since : List (NetCallback Identity)} (haddress : Addresses c.target hash path)
      (hresponse : heard = before ++ .response receipt encoded :: since)
      (hlast : ∀ e ∈ since, e.settles = false) (hpage : L.unwrapped encoded ≠ [])
      (hown : receipt.link = f.links.length → receipt.path = path ∧
        ∃ identity, f'.links = f.links ++ [identity] ∧
          ((∃ destinationHash, .announce destinationHash identity ∈ f'.heard ∧
              L.key destinationHash = hash) ∨
            ∃ t ∈ c.discovery, t.recalled = some identity)) :
      Tells c f f' heard (.fetched (L.unwrapped encoded))

variable {L}

namespace Fetcher

variable {f : Fetcher Identity}

/-- A fetch, from an address on. -/
theorem liveFetch_of_addresses {c : Call Identity} {hash path : Str}
    (haddress : Addresses c.target hash path) {f₀ : Fetcher Identity}
    (hf₀ : f₀ = { f with path := path, ready := true }.reset) :
    f.liveFetch L c =
      match f₀.discover L hash c.discovery with
      | (none, f) =>
          (.fail (lit "no route to " ++ hash ++ lit " (no announce or path within "
            ++ lit (toString discoverSeconds) ++ lit "s)"), f)
      | (some identity, f) => ((f.converse L identity c).result hash, f.converse L identity c) := by
  rw [liveFetch, parseTarget_addresses haddress, hf₀]
  rfl

/-- **The result of a conversation** tells what was called back. -/
theorem During.tells {f₀ f' : Fetcher Identity} {es : List (NetCallback Identity)}
    (h : During L f₀ es f') {c : Call Identity} {hash : Str}
    (haddress : Addresses c.target hash f₀.path)
    (hown : ∀ receipt ∈ f'.requests, receipt.link = f.links.length → receipt.path = f₀.path ∧
      ∃ identity, f'.links = f.links ++ [identity] ∧
        ((∃ destinationHash, .announce destinationHash identity ∈ f'.heard ∧
            L.key destinationHash = hash) ∨
          ∃ t ∈ c.discovery, t.recalled = some identity)) :
    Tells L c f f' es (f'.result hash) := by
  rw [result]
  split
  next hok =>
    obtain ⟨page, hanswered⟩ := Option.isSome_iff_exists.mp (h.response ▸ hok.1)
    obtain ⟨before, receipt, encoded, since, hsplit, hsince, rfl⟩ := exists_response hanswered
    have hmem : .response receipt encoded ∈ es := by simp [hsplit]
    rw [h.page _ hanswered] at hok ⊢
    exact .fetched haddress hsplit hsince (List.ne_nil_of_length_pos hok.2)
      (hown receipt (h.asked receipt encoded hmem))
  next hnot =>
    -- no page is left to be had, whatever came last
    have hnone : ∀ page, L.answered es = some page → page = [] := by
      intro page hpage
      by_contra hne
      refine hnot ⟨by rw [h.response, hpage]; rfl, ?_⟩
      rw [h.page page hpage]
      exact List.length_pos_iff.mpr hne
    split
    next hdown =>
      refine .neverEstablished haddress ?_
      simpa [h.linkUp] using hdown
    next hup =>
      have hup : ∃ e ∈ es, e.establishes = true := by simpa [h.linkUp] using hup
      split
      next hopen =>
        refine .timedOut haddress hup ?_
        simpa [h.done] using hopen
      next hended =>
        refine .failed haddress hup ?_ hnone
        simpa [h.done] using hended

/-- A target that is no address is not fetched. -/
theorem liveFetch_of_not {c : Call Identity}
    (h : ∀ hash path, ¬ Addresses c.target hash path) : f.liveFetch L c =
      (.fail (lit "link has no mesh address to fetch: " ++ c.target),
        { f with path := (parseTarget c.target f.path).2 }) := by
  rw [liveFetch]
  cases hparsed : parseTarget c.target f.path with
  | mk hash path =>
    cases hash with
    | none => rfl
    | some hash => exact absurd (addresses_of_parseTarget hparsed) (h hash path)

/-- **One fetch tells what happened**, and keeps what holds between fetches. -/
theorem Sound.liveFetch (hf : f.Sound L) (c : Call Identity) :
    (f.liveFetch L c).2.Sound L ∧ ∃ heard, (f.liveFetch L c).2.heard = f.heard ++ heard ∧
      Tells L c f (f.liveFetch L c).2 heard (f.liveFetch L c).1 := by
  by_cases h : ∃ hash path, Addresses c.target hash path
  · obtain ⟨hash, path, haddress⟩ := h
    generalize hf₀ : { f with path := path, ready := true }.reset = f₀
    obtain ⟨hpath, hlinks, hrequests, hheard⟩ : f₀.path = path ∧ f₀.links = f.links ∧
        f₀.requests = f.requests ∧ f₀.heard = f.heard := by
      rw [← hf₀]
      exact ⟨rfl, rfl, rfl, rfl⟩
    have hsound₀ : f₀.Sound L := by
      rw [← hf₀]
      exact ⟨hf.announced, hf.known, hf.requests⟩
    have hstep : ∀ f e, (∃ es, During L f₀ es f) → ∃ es, During L f₀ es (f.deliver L e) :=
      fun _ e ⟨_, h⟩ => h.deliver e
    have hsound := discover_invariant (fun _ e h => h.deliver e) hsound₀ hash c.discovery
    obtain ⟨es₁, hduring⟩ :=
      discover_invariant hstep ⟨[], hf₀ ▸ During.reset _⟩ hash c.discovery
    have hlinks₁ := links_discover L f₀ hash c.discovery
    rw [liveFetch_of_addresses haddress hf₀.symm]
    generalize hfound : f₀.discover L hash c.discovery = found at hsound hduring hlinks₁
    obtain ⟨identity, f₁⟩ := found
    cases identity with
    | none =>
      obtain ⟨hrecalled, hunknown⟩ := discover_none (congrArg Prod.fst hfound)
      rw [hfound] at hunknown
      refine ⟨hsound, es₁, hheard ▸ hduring.heard, .noRoute haddress hrecalled ?_⟩
      intro hne dest identity hmem hkey
      exact hsound.known dest identity hmem (hkey ▸ hunknown hne)
    | some identity =>
      obtain ⟨es, hduring₂⟩ := converse_invariant hstep ⟨es₁, hduring.link identity⟩ c
      refine ⟨converse_invariant (fun _ e h => h.deliver e) (hsound.link identity) c, es,
        hheard ▸ hduring₂.heard, hduring₂.tells (hpath ▸ haddress) ?_⟩
      intro receipt hreceipt hlink
      refine ⟨?_, identity, ?_, ?_⟩
      · -- what was requested before this fetch went over an earlier link
        refine (hduring₂.requests receipt hreceipt).resolve_left fun hearlier => ?_
        exact absurd hlink (hf.requests receipt (hrequests ▸ hearlier)).ne
      · rw [links_converse, hlinks₁, hlinks]
      · have hsome := discover_some (congrArg Prod.fst hfound)
        rw [hfound] at hsome
        refine hsome.imp_left fun hknown => ?_
        obtain ⟨dest, hmem, hkey⟩ := hsound.announced hash identity hknown
        exact ⟨dest, mem_heard_converse hmem identity c, hkey⟩
  · have hnot : ∀ hash path, ¬ Addresses c.target hash path :=
      fun hash path haddress => h ⟨hash, path, haddress⟩
    rw [liveFetch_of_not hnot]
    exact ⟨⟨hf.announced, hf.known, hf.requests⟩, [], (List.append_nil _).symm, .noAddress hnot⟩

end Fetcher

/-- **A fetch says what happened.** Over any session, whatever the mesh calls back and when, also
for the links of earlier fetches, each result is accounted for by what was called back in its fetch.
-/
theorem live_fetch_tells (cs : List (Call Identity)) (c : Call Identity) :
    ∃ heard, ((fetches L cs).liveFetch L c).2.heard = (fetches L cs).heard ++ heard ∧
      Tells L c (fetches L cs) ((fetches L cs).liveFetch L c).2 heard
        ((fetches L cs).liveFetch L c).1 := by
  have hsound : (fetches L cs).Sound L := by
    refine Runs.run_invariant (Fetcher.Sound L) (fun f c hf => (hf.liveFetch c).1) ?_ cs
    constructor
    · intro hash identity h
      cases h
    · intro dest identity h
      cases h
    · intro r h
      cases h
  exact (hsound.liveFetch c).2

-- A response that comes late, over the link of the fetch before, is taken for the page.
example :
    let L : Rns := { toHex := id, unpackBin := fun _ => none }
    let before : Call Unit := {
      target := lit "aaaaaaaa:/a", discovery := [⟨[.announce (lit "aaaaaaaa") ()], none⟩],
      waiting := [⟨[.linkEstablished 0], false⟩], closed := false, teardown := [], draining := [] }
    let after : Call Unit := {
      target := lit "bbbbbbbb:/b", discovery := [⟨[.announce (lit "bbbbbbbb") ()], none⟩],
      waiting := [⟨[.response ⟨0, lit "/a"⟩ (lit "a")], false⟩], closed := false, teardown := [],
      draining := [] }
    ((fetches L [before]).liveFetch L after).1 = .fetched (lit "a") := rfl

end Thicket.Desktop
