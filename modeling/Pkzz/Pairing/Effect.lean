import Pkzz.Pairing.Session

/-!
# What a call does to a session

The API of a session as one type of calls, and for each call the ways it can end
(`effect`). A call that is turned down leaves the session as it was; the two that abort the
session although they fail are listed on their own.
-/

namespace Pkzz.Pairing

open Pkzz.Core Pkzz.Lib

inductive Api where
  | handleOffer (event : Event)
  | confirmSas
  | sendPayload (payloadType : PayloadType) (payload : String)
  | handleComplete (event : Event)
  | handleSasConfirm (event : Event)
  | confirmTargetSas
  | handlePayload (event : Event)
  | sendComplete
  | abort (reason : AbortReason)
  | handleAbort (event : Event)

inductive Reply where
  | sas (code : String)
  | event (event : Event)
  | maybeEvent (event : Option Event)
  | payload (payloadType : PayloadType) (payload : String)
  | reason (reason : AbortReason)
  | unit

namespace PairingSession

variable (crypto : Crypto) (env : Env)

def perform : Api → Call Reply
  | .handleOffer event => Reply.sas <$> handleOffer crypto env event
  | .confirmSas => Reply.event <$> confirmSas crypto env
  | .sendPayload payloadType payload => Reply.event <$> sendPayload crypto env payloadType payload
  | .handleComplete event => (fun _ => Reply.unit) <$> handleComplete crypto env event
  | .handleSasConfirm event => Reply.sas <$> handleSasConfirm crypto env event
  | .confirmTargetSas => (fun _ => Reply.unit) <$> confirmTargetSas env
  | .handlePayload event => (fun p => Reply.payload p.1 p.2) <$> handlePayload crypto env event
  | .sendComplete => Reply.event <$> sendComplete crypto env
  | .abort reason => Reply.maybeEvent <$> abort crypto env reason
  | .handleAbort event => Reply.reason <$> handleAbort crypto event

/-- The event is for this session, is new, and carries the message. -/
structure Reads (s : PairingSession) (event : Event) (msg : PairingMessage) : Prop where
  valid : s.validateEventBasics crypto event = .ok ()
  decrypted : s.decryptMessage crypto event = .ok msg

/-- It is by the peer. -/
structure ReadsFromPeer (s : PairingSession) (event : Event) (msg : PairingMessage) : Prop
    extends Reads crypto s event msg where
  peer : ∀ p, s.peerPubkey = some p → event.pubkey = p

def record (s : PairingSession) (event : Event) : Finset (FixedBytes 32) :=
  insert event.id s.processedIds

/-- What the target expects to be confirmed. -/
def expectedHash (s : PairingSession) (peer : PublicKey) (sasInput : FixedBytes 32) :
    FixedBytes 32 :=
  crypto.deriveTranscriptHash s.sessionId peer (s.pubkey crypto) sasInput s.sessionSecret

/-- The source's own transcript hash. -/
def transcriptHash (s : PairingSession) (peer : PublicKey) (sasInput : FixedBytes 32) :
    FixedBytes 32 :=
  crypto.deriveTranscriptHash s.sessionId (s.pubkey crypto) peer sasInput s.sessionSecret

inductive Effect (s : PairingSession) : Api → Except PairingError Reply → PairingSession → Prop
  | rejected (api : Api) (e : PairingError) : Effect s api (.error e) s
  | offered (event : Event) (sessionIdHex : String) (ecdh : FixedBytes 32) :
      s.state = .waiting → s.role = .source → Reads crypto s event (.offer sessionIdHex 1) →
      decodeHash sessionIdHex = some s.sessionId →
        crypto.generateSharedKey s.keys event.pubkey = .ok ecdh →
      Effect s (.handleOffer event)
        (.ok (.sas (formatSas (crypto.deriveSas ecdh s.sessionSecret).1))) { s with
          state := .confirming
          peerPubkey := some event.pubkey
          sasCode := some (crypto.deriveSas ecdh s.sessionSecret).1
          sasInput := some (crypto.deriveSas ecdh s.sessionSecret).2
          processedIds := s.record event }
  | confirmed (peer : PublicKey) (sasInput : FixedBytes 32) (event : Event) :
      s.state = .confirming → s.role = .source → s.sasInput = some sasInput →
        s.peerPubkey = some peer →
      s.buildEvent crypto env (.sasConfirm (s.transcriptHash crypto peer sasInput).toHex) =
        .ok event →
      Effect s .confirmSas (.ok (.event event)) { s with state := .transferring }
  | payloadSent (payloadType : PayloadType) (payload : String) (event : Event) :
      s.state = .transferring → s.role = .source →
      s.buildEvent crypto env (.payload payloadType payload) = .ok event →
      Effect s (.sendPayload payloadType payload)
        (.ok (.event event)) { s with state := .payloadExchanged }
  | completed (event : Event) : s.state = .payloadExchanged → s.role = .source →
      ReadsFromPeer crypto s event (.complete true) →
      Effect s (.handleComplete event) (.ok .unit)
        { s with state := .completed, processedIds := s.record event }
  | completeFailed (event : Event) : s.state = .payloadExchanged → s.role = .source →
      ReadsFromPeer crypto s event (.complete false) →
      Effect s (.handleComplete event)
        (.error (.unexpectedMessage "complete(success=true)" "complete(success=false)"))
        { s with state := .aborted }
  | sasConfirmed (event : Event) (hash : String) (peer : PublicKey) (sasInput : FixedBytes 32)
      (code : Nat) :
      s.state = .confirming → s.role = .target → ReadsFromPeer crypto s event (.sasConfirm hash) →
      s.sasInput = some sasInput → s.peerPubkey = some peer →
      decodeHash hash = some (s.expectedHash crypto peer sasInput) → s.sasCode = some code →
      Effect s (.handleSasConfirm event) (.ok (.sas (formatSas code)))
        { s with state := .awaitingConfirmation, processedIds := s.record event }
  | mismatched (event : Event) (hash : String) (peer : PublicKey) (sasInput : FixedBytes 32) :
      s.state = .confirming → s.role = .target → ReadsFromPeer crypto s event (.sasConfirm hash) →
      s.sasInput = some sasInput → s.peerPubkey = some peer →
      decodeHash hash ≠ some (s.expectedHash crypto peer sasInput) →
      Effect s (.handleSasConfirm event) (.error .transcriptMismatch) { s with state := .aborted }
  | targetConfirmed : s.state = .awaitingConfirmation → s.role = .target →
      Effect s .confirmTargetSas (.ok .unit) { s with state := .transferring }
  | payloadReceived (event : Event) (payloadType : PayloadType) (payload : String) :
      s.state = .transferring → s.role = .target →
        ReadsFromPeer crypto s event (.payload payloadType payload) →
      Effect s (.handlePayload event) (.ok (.payload payloadType payload))
        { s with state := .payloadExchanged, processedIds := s.record event }
  | completeSent (event : Event) : s.state = .payloadExchanged → s.role = .target →
      s.buildEvent crypto env (.complete true) = .ok event →
      Effect s .sendComplete (.ok (.event event)) { s with state := .completed }
  | abortedAlone (reason : AbortReason) : s.isTerminal = false → s.peerPubkey = none →
      Effect s (.abort reason) (.ok (.maybeEvent none)) { s with state := .aborted }
  | aborted (reason : AbortReason) (event : Event) : s.isTerminal = false →
      s.buildEvent crypto env (.abort reason) = .ok event →
      Effect s (.abort reason) (.ok (.maybeEvent (some event))) { s with state := .aborted }
  | abortReceived (event : Event) (reason : AbortReason) (peer : PublicKey) : s.isTerminal = false →
      s.peerPubkey = some peer → ReadsFromPeer crypto s event (.abort reason) →
      Effect s (.handleAbort event) (.ok (.reason reason))
        { s with state := .aborted, processedIds := s.record event }

/-! ## The checks -/

variable {crypto env} {s : PairingSession} {event : Event} {msg : PairingMessage}

theorem expectState_ok {expected : SessionState} {u : Unit} (h : s.expectState expected = .ok u) :
    s.state = expected := by
  unfold expectState at h
  by_contra hne
  rw [if_pos hne] at h
  cases h

theorem expectRole_ok {expected : Role} {u : Unit} (h : s.expectRole expected = .ok u) :
    s.role = expected := by
  unfold expectRole at h
  by_contra hne
  rw [if_pos hne] at h
  cases h

theorem expectNonTerminal_ok {u : Unit} (h : s.expectNonTerminal = .ok u) :
    s.isTerminal = false := by
  unfold expectNonTerminal at h
  cases hterm : s.isTerminal with
  | true =>
    rw [hterm] at h
    cases h
  | false => rfl

theorem okOr_ok {α : Type} {x : Option α} {e : PairingError} {a : α} (h : okOr x e = .ok a) :
    x = some a := by
  cases x with
  | none => cases h
  | some b => rw [Except.ok.inj h]

theorem validateEventFromPeer_ok {u : Unit} (h : s.validateEventFromPeer crypto event = .ok u) :
    s.validateEventBasics crypto event = .ok () ∧ ∀ p, s.peerPubkey = some p →
      event.pubkey = p := by
  unfold validateEventFromPeer at h
  cases hbasics : s.validateEventBasics crypto event with
  | error e =>
    rw [hbasics] at h
    cases h
  | ok _ =>
    refine ⟨rfl, ?_⟩
    intro p hp
    rw [hbasics, hp] at h
    by_contra hne
    dsimp only at h
    rw [if_pos hne] at h
    cases h

/-- Whoever can decrypt has a shared key. -/
theorem decryptMessage_ok (h : s.decryptMessage crypto event = .ok msg) :
    ∃ key plaintext, crypto.generateSharedKey s.keys event.pubkey = .ok key
      ∧ crypto.decryptWith key event.content = .ok plaintext ∧
        crypto.fromStr plaintext = .ok msg := by
  unfold decryptMessage Crypto.decrypt at h
  dsimp only at h
  split at h
  · cases h
  cases hkey : crypto.generateSharedKey s.keys event.pubkey with
  | error e =>
    rw [hkey] at h
    cases h
  | ok key =>
    rw [hkey] at h
    dsimp only at h
    cases hdec : crypto.decryptWith key event.content with
    | error e =>
      rw [hdec] at h
      cases h
    | ok plaintext =>
      rw [hdec] at h
      dsimp only at h
      split at h
      · cases h
      cases hmsg : crypto.fromStr plaintext with
      | error e =>
        rw [hmsg] at h
        cases h
      | ok m =>
        rw [hmsg] at h
        exact ⟨key, plaintext, rfl, hdec, by rw [hmsg, Except.ok.inj h]⟩

/-! ## The calls -/

section Rules

open Fallible

variable {α : Type} {P : Except PairingError α × PairingSession → Prop}

/-- The checks every call but the aborts starts with. -/
theorem checks_rule {state : SessionState} {role : Role} {k : Call α} (hrej : ∀ e, P (.error e, s))
    (hok : s.state = state → s.role = role → P (k.call s)) :
    P ((do
      .reads (checkExpired env)
      .reads (expectState state)
      .reads (expectRole role)
      k : Call α).call s) := by
  refine reads_bind (fun e _ => hrej e) ?_
  intro _ _
  refine reads_bind (fun e _ => hrej e) ?_
  intro _ hstate
  refine reads_bind (fun e _ => hrej e) ?_
  intro _ hrole
  exact hok (expectState_ok hstate) (expectRole_ok hrole)

/-- What the handlers of the peer's events do next. -/
theorem fromPeer_rule {k : PairingMessage → Call α} (hrej : ∀ e, P (.error e, s))
    (hok : ∀ msg, ReadsFromPeer crypto s event msg → P ((k msg).call s)) :
    P ((do
      .reads (validateEventFromPeer crypto event)
      let msg ← .reads (decryptMessage crypto event)
      k msg : Call α).call s) := by
  refine reads_bind (fun e _ => hrej e) ?_
  intro _ hvalid
  refine reads_bind (fun e _ => hrej e) ?_
  intro msg hmsg
  obtain ⟨hbasics, hpeer⟩ := validateEventFromPeer_ok hvalid
  exact hok msg ⟨⟨hbasics, hmsg⟩, hpeer⟩

end Rules

section Calls

open Fallible

/-- What a method does, under the reply its value stands for. -/
def Does (crypto : Crypto) (env : Env) (s : PairingSession) (api : Api) {α : Type}
    (reply : α → Reply)
    (r : Except PairingError α × PairingSession) : Prop :=
    Effect crypto env s api (r.1.map reply) r.2

theorem does_rejected {api : Api} {α : Type} {reply : α → Reply} (e : PairingError) :
    Does crypto env s api reply (.error e, s) := .rejected api e

theorem handleOffer_does :
    Does crypto env s (.handleOffer event) .sas ((handleOffer crypto env event).call s) := by
  unfold handleOffer
  refine checks_rule does_rejected ?_
  intro hstate hrole
  refine reads_bind (fun e _ => does_rejected e) ?_
  intro _ hvalid
  refine reads_bind (fun e _ => does_rejected e) ?_
  intro msg hmsg
  refine ofExcept_bind (fun e _ => does_rejected e) ?_
  intro fields hfields
  refine ofExcept_bind (fun e _ => does_rejected e) ?_
  intro _ hversion
  refine reads_bind (fun e _ => does_rejected e) ?_
  intro _ hid
  have hoffer : msg = .offer fields.1 1 := by
    cases msg with
    | offer sessionIdHex version =>
      rw [← Except.ok.inj hfields] at hversion ⊢
      by_cases hv : version = 1
      · rw [hv]
      · dsimp only at hversion
        rw [if_pos hv] at hversion
        cases hversion
    | _ => cases hfields
  have hdecode : decodeHash fields.1 = some s.sessionId := by
    cases hdec : decodeHash fields.1 with
    | none =>
      rw [hdec] at hid
      cases hid
    | some id =>
      rw [hdec] at hid
      by_cases heq : id = s.sessionId
      · rw [heq]
      · dsimp only at hid
        rw [if_neg heq] at hid
        cases hid
  -- the peer is set before the shared key is computed, but whoever could decrypt has one
  obtain ⟨key, _, hkey, _, _⟩ := decryptMessage_ok hmsg
  refine modify_bind ?_
  refine reads_bind ?_ ?_
  · intro e he
    dsimp only at he
    rw [hkey] at he
    cases he
  · intro ecdh hecdh
    dsimp only at hecdh
    rw [hkey] at hecdh
    refine reads_bind (fun e he => nomatch he) ?_
    intro sas hsas
    refine modify_bind (modify_bind (modify_bind (pure_rule ?_)))
    rw [← Except.ok.inj hsas, ← Except.ok.inj hecdh]
    exact .offered event fields.1 key hstate hrole ⟨hvalid, hoffer ▸ hmsg⟩ hdecode hkey

theorem confirmSas_does :
    Does crypto env s .confirmSas .event ((confirmSas crypto env).call s) := by
  unfold confirmSas
  refine checks_rule does_rejected ?_
  intro hstate hrole
  refine reads_bind (fun e _ => does_rejected e) ?_
  intro sasInput hsas
  refine reads_bind (fun e _ => does_rejected e) ?_
  intro peer hpeer
  refine reads_bind (fun e _ => does_rejected e) ?_
  intro hash hhash
  refine reads_bind (fun e _ => does_rejected e) ?_
  intro event hevent
  rw [← Except.ok.inj hhash] at hevent
  refine modify_bind (pure_rule ?_)
  exact .confirmed peer sasInput event hstate hrole (okOr_ok hsas) (okOr_ok hpeer) hevent

theorem sendPayload_does {payloadType : PayloadType} {payload : String} :
    Does crypto env s (.sendPayload payloadType payload) .event
      ((sendPayload crypto env payloadType payload).call s) := by
  unfold sendPayload
  refine checks_rule does_rejected ?_
  intro hstate hrole
  refine reads_bind (fun e _ => does_rejected e) ?_
  intro event hevent
  refine modify_bind (pure_rule ?_)
  exact .payloadSent payloadType payload event hstate hrole hevent

theorem handleComplete_does : Does crypto env s (.handleComplete event) (fun _ => .unit)
    ((handleComplete crypto env event).call s) := by
  unfold handleComplete
  refine checks_rule does_rejected ?_
  intro hstate hrole
  refine fromPeer_rule does_rejected ?_
  intro msg hmsg
  cases msg with
  | complete success =>
    cases success with
    | true => exact modify_bind (modify_rule (.completed event hstate hrole hmsg))
    | false => exact modify_bind (throw_rule (.completeFailed event hstate hrole hmsg))
  | _ => exact throw_rule (does_rejected _)

theorem handleSasConfirm_does (hcode : s.role = .target → s.sasCode.isSome = true) :
    Does crypto env s (.handleSasConfirm event) .sas
      ((handleSasConfirm crypto env event).call s) := by
  unfold handleSasConfirm
  refine checks_rule does_rejected ?_
  intro hstate hrole
  refine fromPeer_rule does_rejected ?_
  intro msg hmsg
  refine ofExcept_bind (fun e _ => does_rejected e) ?_
  intro hash hhash
  refine reads_bind (fun e _ => does_rejected e) ?_
  intro sasInput hsas
  refine reads_bind (fun e _ => does_rejected e) ?_
  intro peer hpeer
  refine reads_bind (fun e _ => does_rejected e) ?_
  intro expected hexpected
  have hconfirm : msg = .sasConfirm hash := by
    cases msg with
    | sasConfirm transcriptHash => rw [Except.ok.inj hhash]
    | _ => cases hhash
  rw [hconfirm] at hmsg
  cases hexpected
  by_cases hmatch : decodeHash hash = some (s.expectedHash crypto peer sasInput)
  · rw [if_pos (show decodeHash hash =
      some (crypto.deriveTranscriptHash s.sessionId peer (s.pubkey crypto)
      sasInput s.sessionSecret) from hmatch)]
    obtain ⟨code, hsome⟩ := Option.isSome_iff_exists.mp (hcode hrole)
    refine modify_bind (modify_bind (reads_bind ?_ ?_))
    · intro e he
      dsimp only at he
      rw [hsome] at he
      cases he
    · intro code' hcode'
      dsimp only at hcode'
      rw [← Option.some.inj (hsome.symm.trans (okOr_ok hcode'))]
      refine pure_rule ?_
      exact .sasConfirmed event hash peer sasInput code hstate hrole hmsg (okOr_ok hsas)
        (okOr_ok hpeer) hmatch hsome
  · rw [if_neg (show ¬ decodeHash hash =
      some (crypto.deriveTranscriptHash s.sessionId peer (s.pubkey crypto)
      sasInput s.sessionSecret) from hmatch)]
    refine modify_bind (throw_rule ?_)
    exact .mismatched event hash peer sasInput hstate hrole hmsg (okOr_ok hsas)
      (okOr_ok hpeer) hmatch

theorem confirmTargetSas_does : Does crypto env s .confirmTargetSas (fun _ => .unit)
    ((confirmTargetSas env).call s) := by
  unfold confirmTargetSas
  refine checks_rule does_rejected ?_
  intro hstate hrole
  exact modify_rule (.targetConfirmed hstate hrole)

theorem handlePayload_does : Does crypto env s (.handlePayload event) (fun p => .payload p.1 p.2)
    ((handlePayload crypto env event).call s) := by
  unfold handlePayload
  refine checks_rule does_rejected ?_
  intro hstate hrole
  refine fromPeer_rule does_rejected ?_
  intro msg hmsg
  cases msg with
  | payload payloadType payload =>
    refine modify_bind (modify_bind (pure_rule ?_))
    exact .payloadReceived event payloadType payload hstate hrole hmsg
  | _ => exact throw_rule (does_rejected _)

theorem sendComplete_does :
    Does crypto env s .sendComplete .event ((sendComplete crypto env).call s) := by
  unfold sendComplete
  refine checks_rule does_rejected ?_
  intro hstate hrole
  refine reads_bind (fun e _ => does_rejected e) ?_
  intro event hevent
  refine modify_bind (pure_rule ?_)
  exact .completeSent event hstate hrole hevent

theorem abort_does {reason : AbortReason} : Does crypto env s (.abort reason) .maybeEvent
    ((abort crypto env reason).call s) := by
  unfold abort
  refine reads_bind (fun e _ => does_rejected e) ?_
  intro _ hterm
  refine reads_bind (fun e he => nomatch he) ?_
  intro peer hpeer
  cases hs : s.peerPubkey with
  | none =>
    rw [← Except.ok.inj hpeer, hs, if_pos (show (none : Option PublicKey).isNone = true from rfl)]
    exact modify_bind (pure_rule (.abortedAlone reason (expectNonTerminal_ok hterm) hs))
  | some p =>
    rw [← Except.ok.inj hpeer, hs, if_neg (show ¬ (some p).isNone = true from Bool.false_ne_true)]
    refine reads_bind (fun e _ => does_rejected e) ?_
    intro event hevent
    exact modify_bind (pure_rule (.aborted reason event (expectNonTerminal_ok hterm) hevent))

theorem handleAbort_does : Does crypto env s (.handleAbort event) .reason
    ((handleAbort crypto event).call s) := by
  unfold handleAbort
  refine reads_bind (fun e _ => does_rejected e) ?_
  intro _ hterm
  refine reads_bind (fun e _ => does_rejected e) ?_
  intro peer hpeer
  refine fromPeer_rule does_rejected ?_
  intro msg hmsg
  cases msg with
  | abort reason =>
    refine modify_bind (modify_bind (pure_rule ?_))
    exact .abortReceived event reason peer (expectNonTerminal_ok hterm) (okOr_ok hpeer) hmsg
  | _ => exact throw_rule (does_rejected _)

theorem effect_map {α : Type} {reply : α → Reply} {x : Call α} {api : Api}
    (h : Does crypto env s api reply (x.call s)) :
    Effect crypto env s api ((reply <$> x).call s).1 ((reply <$> x).call s).2 := by
  rw [call_map]
  exact h

/-- **Every call ends in one of the ways listed.** -/
theorem effect (hcode : s.role = .target → s.sasCode.isSome = true) (api : Api) :
    Effect crypto env s api ((perform crypto env api).call s).1
      ((perform crypto env api).call s).2 := by
  cases api with
  | handleOffer event => exact effect_map handleOffer_does
  | confirmSas => exact effect_map confirmSas_does
  | sendPayload payloadType payload => exact effect_map sendPayload_does
  | handleComplete event => exact effect_map handleComplete_does
  | handleSasConfirm event => exact effect_map (handleSasConfirm_does hcode)
  | confirmTargetSas => exact effect_map confirmTargetSas_does
  | handlePayload event => exact effect_map handlePayload_does
  | sendComplete => exact effect_map sendComplete_does
  | abort reason => exact effect_map abort_does
  | handleAbort event => exact effect_map handleAbort_does

end Calls

end PairingSession

end Pkzz.Pairing
