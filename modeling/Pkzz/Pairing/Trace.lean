import Pkzz.Lib.History
import Pkzz.Lib.Machine
import Pkzz.Pairing.Effect

/-!
# The calls of a session, in their order

A session and the history of the calls made to it, whatever they are: events may come from
anyone, twice, and in any order. The calls that went through are, for each state, one
certain sequence (`SourcePath`, `TargetPath`); that every entry of the history was made on
such a path is the invariant everything else follows from (`inv_run`).
-/

namespace Pkzz.Pairing

open Pkzz.Core Pkzz.Lib

structure Entry where
  env : Env
  api : Api
  before : PairingSession
  reply : Except PairingError Reply
  after : PairingSession

structure Trace where
  session : PairingSession
  history : List Entry

/-- The API of one session. -/
def pairing (crypto : Crypto) : Machine Trace (Env × Api) where
  step t op :=
    let r := (PairingSession.perform crypto op.1 op.2).call t.session
    some ⟨r.2, t.history ++ [⟨op.1, op.2, t.session, r.1, r.2⟩]⟩

/-- A session as it is created, and the key of the source in its QR code. -/
inductive Started (crypto : Crypto) : PairingSession → PublicKey → Prop
  | source (env : Env) (secretKey : SecretKey) (sessionSecret : FixedBytes 32) (relayUrl : String) :
      Started crypto (PairingSession.newSource crypto env secretKey sessionSecret relayUrl).1
        (crypto.publicKey secretKey)
  | target (env : Env) (secretKey : SecretKey) (qr : QrPayload) (s : PairingSession)
      (offer : Event) : PairingSession.newTarget crypto env secretKey qr = .ok (s, offer) →
        Started crypto s qr.sourcePubkey

/-! ## Entries -/

def Api.event : Api → Option Event
  | handleOffer event | handleComplete event | handleSasConfirm event | handlePayload event
  | handleAbort event => some event
  | confirmSas | sendPayload _ _ | confirmTargetSas | sendComplete | abort _ => none

namespace Entry

def accepted (x : Entry) : Bool :=
  match x.reply with
  | .ok _ => true
  | .error _ => false

variable (crypto : Crypto)

/-- An accepted offer; its session id is that of the session. -/
structure Offered (x : Entry) (event : Event) : Prop where
  api : x.api = .handleOffer event
  accepted : x.accepted = true
  sessionId : ∃ sessionIdHex, x.before.Reads crypto event (.offer sessionIdHex 1)
    ∧ decodeHash sessionIdHex = some x.before.sessionId

structure Confirmed (x : Entry) : Prop where
  api : x.api = .confirmSas
  accepted : x.accepted = true

/-- The payload is sent in this event. -/
structure Sends (x : Entry) (payloadType : PayloadType) (payload : String)
    (event : Event) : Prop where
  api : x.api = .sendPayload payloadType payload
  reply : x.reply = .ok (.event event)

structure Completed (x : Entry) (event : Event) : Prop where
  api : x.api = .handleComplete event
  accepted : x.accepted = true

/-- An accepted `sas-confirm` of the source, with the transcript hash of the session `s`. -/
structure SasConfirmed (s : PairingSession) (sourcePubkey : PublicKey) (x : Entry)
    (event : Event) : Prop where
  api : x.api = .handleSasConfirm event
  accepted : x.accepted = true
  author : event.pubkey = sourcePubkey
  hash : ∃ hash sasInput, x.before.Reads crypto event (.sasConfirm hash) ∧
    s.sasInput = some sasInput
    ∧ decodeHash hash = some (s.expectedHash crypto sourcePubkey sasInput)

structure TargetConfirmed (x : Entry) : Prop where
  api : x.api = .confirmTargetSas
  accepted : x.accepted = true

structure Receives (x : Entry) (event : Event) (payloadType : PayloadType)
    (payload : String) : Prop where
  api : x.api = .handlePayload event
  reply : x.reply = .ok (.payload payloadType payload)

structure CompleteSent (x : Entry) (event : Event) : Prop where
  api : x.api = .sendComplete
  reply : x.reply = .ok (.event event)

end Entry

/-- The calls that went through. -/
def acceptedOf (history : List Entry) : List Entry := history.filter Entry.accepted

namespace PairingSession

variable (crypto : Crypto) (sourcePubkey : PublicKey)

/-! ## Paths -/

/-- What a source has accepted so far, and whom it talks to. -/
def SourcePath (s : PairingSession) (l : List Entry) : Prop :=
  match s.state with
  | .waiting => l = []
  | .confirming => ∃ o event, o.Offered crypto event ∧ s.peerPubkey = some event.pubkey ∧ l = [o]
  | .awaitingConfirmation => False
  | .transferring => ∃ o event c, o.Offered crypto event ∧
      s.peerPubkey = some event.pubkey ∧ c.Confirmed ∧ l = [o, c]
  | .payloadExchanged => ∃ o event c p, o.Offered crypto event ∧ s.peerPubkey = some event.pubkey
      ∧ c.Confirmed ∧ (∃ payloadType payload e, p.Sends payloadType payload e) ∧ l = [o, c, p]
  | .completed => ∃ o event c p d, o.Offered crypto event ∧ s.peerPubkey = some event.pubkey
      ∧ c.Confirmed ∧ (∃ payloadType payload e, p.Sends payloadType payload e)
      ∧ (∃ e, d.Completed e) ∧ l = [o, c, p, d]
  | .aborted => True

def TargetPath (s₀ s : PairingSession) (l : List Entry) : Prop :=
  match s.state with
  | .waiting => False
  | .confirming => l = []
  | .awaitingConfirmation => ∃ o event, o.SasConfirmed crypto s₀ sourcePubkey event ∧ l = [o]
  | .transferring => ∃ o event c, o.SasConfirmed crypto s₀ sourcePubkey event ∧ c.TargetConfirmed
      ∧ l = [o, c]
  | .payloadExchanged => ∃ o event c p, o.SasConfirmed crypto s₀ sourcePubkey event ∧
      c.TargetConfirmed
      ∧ (∃ e payloadType payload, p.Receives e payloadType payload) ∧ l = [o, c, p]
  | .completed => ∃ o event c p d, o.SasConfirmed crypto s₀ sourcePubkey event ∧ c.TargetConfirmed
      ∧ (∃ e payloadType payload, p.Receives e payloadType payload) ∧ (∃ e, d.CompleteSent e)
      ∧ l = [o, c, p, d]
  | .aborted => True

/-- What a session never changes. -/
structure Fixed (s₀ s : PairingSession) : Prop where
  role : s.role = s₀.role
  keys : s.keys = s₀.keys
  sessionSecret : s.sessionSecret = s₀.sessionSecret
  sessionId : s.sessionId = s₀.sessionId
  /-- The target knows its peer and the SAS from the start. -/
  target : s₀.role = .target → s.peerPubkey = s₀.peerPubkey ∧ s.sasCode = s₀.sasCode ∧
    s.sasInput = s₀.sasInput

/-- A session on its path, after these calls. -/
structure OnPath (s₀ s : PairingSession) (history : List Entry) : Prop where
  fixed : Fixed s₀ s
  source : s₀.role = .source → SourcePath crypto s (acceptedOf history)
  target : s₀.role = .target → TargetPath crypto sourcePubkey s₀ s (acceptedOf history)
  /-- An event is marked as processed exactly if it was accepted. -/
  processed : ∀ id, id ∈ s.processedIds ↔
    ∃ x ∈ acceptedOf history, ∃ e, x.api.event = some e ∧ e.id = id

/-- An entry was made on the path. -/
structure MadeOnPath (s₀ : PairingSession) (pre : List Entry) (x : Entry) : Prop where
  path : OnPath crypto sourcePubkey s₀ x.before pre
  effect : Effect crypto x.env x.before x.api x.reply x.after

structure Inv (s₀ : PairingSession) (t : Trace) : Prop where
  path : OnPath crypto sourcePubkey s₀ t.session t.history
  entries : Justified (MadeOnPath crypto sourcePubkey s₀) t.history

/-- A target knows its peer, and the SAS. -/
structure Ready (s₀ : PairingSession) : Prop where
  peer : s₀.role = .target → s₀.peerPubkey = some sourcePubkey
  code : s₀.role = .target → s₀.sasCode.isSome = true

/-! ## One step -/

variable {crypto sourcePubkey} {s₀ s s' : PairingSession} {env : Env} {api : Api} {t t' : Trace}
  {r : Except PairingError Reply} {history l : List Entry} {x : Entry}

theorem acceptedOf_append (history : List Entry) (x : Entry) :
    acceptedOf (history ++ [x]) = acceptedOf history ++ if x.accepted = true then [x] else [] := by
  unfold acceptedOf
  rw [List.filter_append, List.filter_cons, List.filter_nil]

/-- The accepted entries after a call. -/
def andAccepted (l : List Entry) (x : Entry) : List Entry :=
  l ++ if x.accepted = true then [x] else []

theorem sourcePath_step (hrole : s.role = .source) (h : SourcePath crypto s l)
    (heff : Effect crypto env s api r s') :
    SourcePath crypto s' (andAccepted l ⟨env, api, s, r, s'⟩) := by
  unfold SourcePath at h
  cases heff with
  | rejected api e =>
    have hl : andAccepted l ⟨env, api, s, .error e, s⟩ = l := List.append_nil l
    rw [hl]
    exact h
  | offered event sessionIdHex ecdh hstate _ hreads hid hkey =>
    rw [hstate] at h
    subst h
    exact ⟨_, event, ⟨rfl, rfl, sessionIdHex, hreads, hid⟩, rfl, rfl⟩
  | confirmed peer sasInput event hstate =>
    rw [hstate] at h
    obtain ⟨o, offer, ho, hpeer, hl⟩ := h
    subst hl
    exact ⟨o, offer, _, ho, hpeer, ⟨rfl, rfl⟩, rfl⟩
  | payloadSent payloadType payload event hstate =>
    rw [hstate] at h
    obtain ⟨o, offer, c, ho, hpeer, hc, hl⟩ := h
    subst hl
    exact ⟨o, offer, c, _, ho, hpeer, hc, ⟨payloadType, payload, event, rfl, rfl⟩, rfl⟩
  | completed event hstate =>
    rw [hstate] at h
    obtain ⟨o, offer, c, p, ho, hpeer, hc, hp, hl⟩ := h
    subst hl
    exact ⟨o, offer, c, p, _, ho, hpeer, hc, hp, ⟨event, rfl, rfl⟩, rfl⟩
  | completeFailed => trivial
  | sasConfirmed _ _ _ _ _ _ htarget | targetConfirmed _ htarget
  | payloadReceived _ _ _ _ htarget | completeSent _ _ htarget =>
    rw [hrole] at htarget
    cases htarget
  | mismatched => trivial
  | abortedAlone => trivial
  | aborted => trivial
  | abortReceived => trivial

theorem targetPath_step (hrole : s.role = .target) (hfixed : Fixed s₀ s)
    (hready : Ready sourcePubkey s₀)
    (h : TargetPath crypto sourcePubkey s₀ s l) (heff : Effect crypto env s api r s') :
    TargetPath crypto sourcePubkey s₀ s' (andAccepted l ⟨env, api, s, r, s'⟩) := by
  have hrole₀ : s₀.role = .target := hfixed.role.symm.trans hrole
  unfold TargetPath at h
  cases heff with
  | rejected api e =>
    have hl : andAccepted l ⟨env, api, s, .error e, s⟩ = l := List.append_nil l
    rw [hl]
    exact h
  | offered _ _ _ _ hsource | confirmed _ _ _ _ hsource | payloadSent _ _ _ _ hsource
  | completed _ _ hsource =>
    rw [hrole] at hsource
    cases hsource
  | completeFailed => trivial
  | sasConfirmed event hash peer sasInput code hstate _ hreads hsas hpeer hhash =>
    rw [hstate] at h
    subst h
    obtain ⟨hpeer₀, _, hsas₀⟩ := hfixed.target hrole₀
    have hsource : peer = sourcePubkey :=
      Option.some.inj (hpeer.symm.trans (hpeer₀.trans (hready.peer hrole₀)))
    have hexpected : s.expectedHash crypto peer sasInput =
        s₀.expectedHash crypto sourcePubkey sasInput := by
      unfold expectedHash pubkey
      rw [hfixed.sessionId, hfixed.keys, hfixed.sessionSecret, hsource]
    refine ⟨_, event, ⟨rfl, rfl, ?_, hash, sasInput, hreads.toReads, hsas₀.symm.trans hsas, ?_⟩,
      rfl⟩
    · rw [← hsource]
      exact hreads.peer peer hpeer
    · rw [← hexpected]
      exact hhash
  | mismatched => trivial
  | targetConfirmed hstate =>
    rw [hstate] at h
    obtain ⟨o, event, ho, hl⟩ := h
    subst hl
    exact ⟨o, event, _, ho, ⟨rfl, rfl⟩, rfl⟩
  | payloadReceived event payloadType payload hstate =>
    rw [hstate] at h
    obtain ⟨o, confirm, c, ho, hc, hl⟩ := h
    subst hl
    exact ⟨o, confirm, c, _, ho, hc, ⟨event, payloadType, payload, rfl, rfl⟩, rfl⟩
  | completeSent event hstate =>
    rw [hstate] at h
    obtain ⟨o, confirm, c, p, ho, hc, hp, hl⟩ := h
    subst hl
    exact ⟨o, confirm, c, p, _, ho, hc, hp, ⟨event, rfl, rfl⟩, rfl⟩
  | abortedAlone => trivial
  | aborted => trivial
  | abortReceived => trivial

theorem fixed_step (h : Fixed s₀ s) (heff : Effect crypto env s api r s') : Fixed s₀ s' := by
  cases heff with
  | offered _ _ _ _ hsource =>
    refine ⟨h.role, h.keys, h.sessionSecret, h.sessionId, ?_⟩
    intro htarget
    rw [← h.role, hsource] at htarget
    cases htarget
  | _ => exact ⟨h.role, h.keys, h.sessionSecret, h.sessionId, h.target⟩

/-- Only the event of a call that goes through is marked. -/
theorem processed_step (heff : Effect crypto env s api r s') (id : FixedBytes 32) :
    id ∈ s'.processedIds ↔ id ∈ s.processedIds
      ∨ (∃ reply, r = .ok reply) ∧ ∃ e, api.event = some e ∧ e.id = id := by
  have hrecord : ∀ (event : Event) (reply : Reply), id ∈ s.record event ↔ id ∈ s.processedIds
      ∨ (∃ y, (Except.ok reply : Except PairingError Reply) = .ok y) ∧ ∃ e, some event = some e ∧
        e.id = id := by
    intro event reply
    unfold record
    rw [Finset.mem_insert]
    constructor
    · intro h
      rcases h with h | h
      · exact .inr ⟨⟨reply, rfl⟩, event, rfl, h.symm⟩
      · exact .inl h
    · intro h
      rcases h with h | ⟨_, e, he, hid⟩
      · exact .inr h
      · rw [Option.some.inj he]
        exact .inl hid.symm
  have hfailed : ∀ (e : PairingError) (x : Option Event), id ∈ s.processedIds ↔ id ∈ s.processedIds
      ∨ (∃ y, (Except.error e : Except PairingError Reply) = .ok y) ∧ ∃ e, x = some e ∧
        e.id = id := by
    intro e x
    refine ⟨.inl, ?_⟩
    intro h
    rcases h with h | ⟨⟨y, hy⟩, _⟩
    · exact h
    · cases hy
  have hsame : ∀ (y : Except PairingError Reply), id ∈ s.processedIds ↔ id ∈ s.processedIds
      ∨ (∃ z, y = .ok z) ∧ ∃ e, (none : Option Event) = some e ∧ e.id = id := by
    intro y
    refine ⟨.inl, ?_⟩
    intro h
    rcases h with h | ⟨_, e, he, _⟩
    · exact h
    · cases he
  cases heff with
  | rejected api e => exact hfailed e _
  | completeFailed event => exact hfailed _ _
  | mismatched event => exact hfailed _ _
  | offered event | completed event | sasConfirmed event | payloadReceived event
  | abortReceived event => exact hrecord event _
  | confirmed | payloadSent | targetConfirmed | completeSent | abortedAlone | aborted =>
    exact hsame _

theorem mem_andAccepted {y : Entry} (h : y ∈ andAccepted l x) : y ∈ l ∨ y = x ∧
    x.accepted = true := by
  unfold andAccepted at h
  rcases List.mem_append.mp h with h | h
  · exact .inl h
  by_cases hx : x.accepted = true
  · rw [if_pos hx] at h
    exact .inr ⟨List.mem_singleton.mp h, hx⟩
  · rw [if_neg hx] at h
    exact absurd h List.not_mem_nil

theorem accepted_iff : x.accepted = true ↔ ∃ reply, x.reply = .ok reply := by
  unfold Entry.accepted
  cases x.reply with
  | ok reply => simp
  | error e => simp

theorem onPath_step (hready : Ready sourcePubkey s₀) (h : OnPath crypto sourcePubkey s₀ s history)
    (heff : Effect crypto env s api r s') :
    OnPath crypto sourcePubkey s₀ s' (history ++ [⟨env, api, s, r, s'⟩]) := by
  have hl : acceptedOf (history ++ [⟨env, api, s, r, s'⟩])
      = andAccepted (acceptedOf history) ⟨env, api, s, r, s'⟩ := acceptedOf_append _ _
  refine ⟨fixed_step h.fixed heff, ?_, ?_, ?_⟩
  · intro hrole
    rw [hl]
    exact sourcePath_step (h.fixed.role.trans hrole) (h.source hrole) heff
  · intro hrole
    rw [hl]
    exact targetPath_step (h.fixed.role.trans hrole) h.fixed hready (h.target hrole) heff
  · intro id
    rw [hl, processed_step heff id, h.processed id]
    constructor
    · intro hid
      rcases hid with ⟨x, hx, hevent⟩ | ⟨hok, hevent⟩
      · exact ⟨x, List.mem_append_left _ hx, hevent⟩
      · refine ⟨⟨env, api, s, r, s'⟩, List.mem_append_right _ ?_, hevent⟩
        rw [if_pos (accepted_iff.mpr hok)]
        exact List.mem_singleton_self _
    · intro hid
      obtain ⟨x, hx, hevent⟩ := hid
      rcases mem_andAccepted hx with hx | ⟨rfl, hok⟩
      · exact .inl ⟨x, hx, hevent⟩
      · exact .inr ⟨accepted_iff.mp hok, hevent⟩

/-! ## Every run -/

theorem code_of_fixed (hready : Ready sourcePubkey s₀) (h : Fixed s₀ s) (hrole : s.role = .target) :
    s.sasCode.isSome = true := by
  have hrole₀ : s₀.role = .target := h.role.symm.trans hrole
  rw [(h.target hrole₀).2.1]
  exact hready.code hrole₀

/-- A target as `new_target` returns it. -/
theorem newTarget_ok {secretKey : SecretKey} {qr : QrPayload} {offer : Event}
    (h : newTarget crypto env secretKey qr = .ok (s, offer)) :
    ∃ ecdh waiting, crypto.generateSharedKey secretKey qr.sourcePubkey = .ok ecdh
      ∧ s = { role := .target
              state := .confirming
              keys := secretKey
              sessionSecret := qr.sessionSecret
              relayUrls := qr.relays
              peerPubkey := some qr.sourcePubkey
              sessionId := crypto.deriveSessionId qr.sessionSecret
              sasCode := some (crypto.deriveSas ecdh qr.sessionSecret).1
              sasInput := some (crypto.deriveSas ecdh qr.sessionSecret).2
              processedIds := ∅
              createdAt := env.now
              timeout := defaultTimeout }
      ∧ waiting = { s with state := .waiting }
      ∧ buildEvent crypto env (.offer s.sessionId.toHex 1) waiting = .ok offer := by
  unfold newTarget at h
  cases hkey : crypto.generateSharedKey secretKey qr.sourcePubkey with
  | error e =>
    rw [hkey] at h
    cases h
  | ok ecdh =>
    rw [hkey] at h
    dsimp only at h
    split at h
    · cases h
    rename_i event hevent
    obtain ⟨hs, hoffer⟩ := Prod.mk.inj (Except.ok.inj h)
    refine ⟨ecdh, _, rfl, hs.symm, rfl, ?_⟩
    rw [← hs, ← hoffer]
    exact hevent

theorem ready_of_started (h : Started crypto s₀ sourcePubkey) : Ready sourcePubkey s₀ := by
  cases h with
  | source env secretKey sessionSecret relayUrl =>
      exact ⟨(fun hrole => nomatch hrole), (fun hrole => nomatch hrole)⟩
  | target env secretKey qr _ offer hnew =>
    obtain ⟨ecdh, _, _, rfl, _⟩ := newTarget_ok hnew
    exact ⟨fun _ => rfl, fun _ => rfl⟩

theorem inv_init (h : Started crypto s₀ sourcePubkey) : Inv crypto sourcePubkey s₀ ⟨s₀, []⟩ := by
  have hfixed : Fixed s₀ s₀ := ⟨rfl, rfl, rfl, rfl, fun _ => ⟨rfl, rfl, rfl⟩⟩
  refine ⟨?_, justified_nil⟩
  have hempty : ∀ id, id ∈ (∅ : Finset (FixedBytes 32)) ↔
      ∃ x ∈ acceptedOf [], ∃ e, x.api.event = some e ∧ e.id = id := by
    intro id
    refine ⟨fun hid => absurd hid (Finset.notMem_empty id), ?_⟩
    intro hid
    obtain ⟨x, hx, _⟩ := hid
    exact absurd hx List.not_mem_nil
  cases h with
  | source env secretKey sessionSecret relayUrl =>
    exact ⟨hfixed, fun _ => rfl, (fun hrole => nomatch hrole), hempty⟩
  | target env secretKey qr _ offer hnew =>
    obtain ⟨ecdh, _, _, rfl, _⟩ := newTarget_ok hnew
    exact ⟨hfixed, (fun hrole => nomatch hrole), fun _ => rfl, hempty⟩

theorem inv_step (hready : Ready sourcePubkey s₀) {op : Env × Api}
    (h : Inv crypto sourcePubkey s₀ t)
    (hstep : (pairing crypto).step t op = some t') : Inv crypto sourcePubkey s₀ t' := by
  have heff : Effect crypto op.1 t.session op.2 _ _ :=
    effect (code_of_fixed hready h.path.fixed) op.2
  cases hstep
  exact ⟨onPath_step hready h.path heff, justified_append h.entries ⟨h.path, heff⟩⟩

theorem inv_run {ops : List (Env × Api)} (hs : Started crypto s₀ sourcePubkey)
    (h : (pairing crypto).run ⟨s₀, []⟩ ops = some t) : Inv crypto sourcePubkey s₀ t :=
  Machine.invariant (I := Inv crypto sourcePubkey s₀)
    (fun _ _ _ hinv _ hstep =>
      inv_step (ready_of_started hs) hinv hstep) (inv_init hs) Machine.always_true h

end PairingSession

end Pkzz.Pairing
