import Mathlib.Data.Finset.Insert
import Pkzz.Lib.Fallible
import Pkzz.Pairing.Message

/-!
# A pairing session

`PairingSession`, one side of a device pairing: each method of the source as a method here.
What a method takes from its surroundings (the clocks, randomness) is an argument of it.
-/

namespace Pkzz.Pairing

open Pkzz.Core Pkzz.Lib

inductive Role where
  | source
  | target
  deriving DecidableEq

inductive SessionState where
  /-- The QR code is displayed, or the offer not yet built. -/
  | waiting
  | confirming
  /-- The target has a `sas-confirm`, and its user has to approve. -/
  | awaitingConfirmation
  | transferring
  /-- The payload is sent or received. -/
  | payloadExchanged
  | completed
  | aborted
  deriving DecidableEq

/-- `{:?}`. -/
def Role.debug : Role → String
  | source => "Source"
  | target => "Target"

def SessionState.debug : SessionState → String
  | waiting => "Waiting"
  | confirming => "Confirming"
  | awaitingConfirmation => "AwaitingConfirmation"
  | transferring => "Transferring"
  | payloadExchanged => "PayloadExchanged"
  | completed => "Completed"
  | aborted => "Aborted"

structure PairingSession where
  role : Role
  state : SessionState
  /-- The secret key of the session's own key pair. -/
  keys : SecretKey
  sessionSecret : FixedBytes 32
  relayUrls : List String
  /-- The source learns it from the offer, the target from the QR code. -/
  peerPubkey : Option PublicKey
  sessionId : FixedBytes 32
  sasCode : Option Nat
  sasInput : Option (FixedBytes 32)
  processedIds : Finset (FixedBytes 32)
  createdAt : Nat
  timeout : Nat

structure QrPayload where
  version : Nat
  sourcePubkey : PublicKey
  sessionSecret : FixedBytes 32
  relays : List String

/-- What a call reads besides the session. -/
structure Env where
  /-- `Instant::now`, in nanoseconds. -/
  now : Nat
  /-- `Timestamp::now`, in seconds. -/
  unixTime : Nat
  random : Nat
  nonce : FixedBytes 32
  aux : FixedBytes 32

def defaultTimeout : Nat := 120 * 1000000000

namespace PairingSession

abbrev Call := Fallible PairingSession PairingError

variable (crypto : Crypto) (env : Env)

/-! ## Methods on `&self` -/

def pubkey (s : PairingSession) : PublicKey := crypto.publicKey s.keys

def isExpired (s : PairingSession) : Bool := env.now - s.createdAt > s.timeout

def checkExpired (s : PairingSession) : Except PairingError Unit :=
  if s.isExpired env then .error .sessionExpired else .ok ()

def expectState (expected : SessionState) (s : PairingSession) : Except PairingError Unit :=
  if s.state ≠ expected then
    .error (.unexpectedMessage ("state " ++ expected.debug) ("state " ++ s.state.debug))
  else .ok ()

def expectRole (expected : Role) (s : PairingSession) : Except PairingError Unit :=
  if s.role ≠ expected then
    .error (.unexpectedMessage ("role " ++ expected.debug) ("role " ++ s.role.debug))
  else .ok ()

/-- `Completed | Aborted`. -/
def isTerminal (s : PairingSession) : Bool := s.state = .completed || s.state = .aborted

def expectNonTerminal (s : PairingSession) : Except PairingError Unit :=
  if s.isTerminal then .error (.unexpectedMessage "non-terminal state" ("state " ++ s.state.debug))
  else .ok ()

/-- `?` on an `Option` with an error. -/
def okOr {α : Type} (x : Option α) (e : PairingError) : Except PairingError α :=
  match x with
  | some a => .ok a
  | none => .error e

def buildEvent (message : PairingMessage) (s : PairingSession) : Except PairingError Event :=
  match s.peerPubkey with
  | none => .error (.invalidPubkey "no peer pubkey set")
  | some peer =>
    match crypto.encrypt s.keys peer env.nonce message.text with
    | .error e => .error (.nip44 e)
    | .ok encrypted =>
      let jitter := env.random % 31
      match crypto.signWithKeys s.keys
          ⟨env.unixTime - jitter, pairingKind, [["p", peer.toHex]], encrypted⟩ env.aux with
      | .error e => .error (.signingError e)
      | .ok event => .ok event

def decryptMessage (event : Event) (s : PairingSession) : Except PairingError PairingMessage :=
  let contentLen := event.content.utf8ByteSize
  if contentLen < 132 ∨ 87472 < contentLen then
    .error (.unexpectedMessage "NIP-44 content (132–87472 chars)" (contentLen.repr ++ " chars"))
  else
    match crypto.decrypt s.keys event.pubkey event.content with
    | .error e => .error (.nip44 e)
    | .ok decrypted =>
      if decrypted.utf8ByteSize > 65535 then
        .error (.unexpectedMessage "plaintext ≤ 65535 bytes"
          (decrypted.utf8ByteSize.repr ++ " bytes"))
      else
        match crypto.fromStr decrypted with
        | .error e => .error (.json e)
        | .ok msg => .ok msg

/-- A tag `p` with our key as its value. -/
def hasPTag (event : Event) (s : PairingSession) : Bool :=
  event.tags.any fun t => t[0]? = some "p" && t[1]? = some (s.pubkey crypto).toHex

def validateEventBasics (event : Event) (s : PairingSession) : Except PairingError Unit :=
  match crypto.verify event with
  | .error e => .error (.invalidPubkey ("event verification failed: " ++ e))
  | .ok () =>
    if event.id ∈ s.processedIds then .error (.unexpectedMessage "new event" "duplicate event id")
    else if event.kind ≠ pairingKind then
      .error (.unexpectedMessage ("kind " ++ pairingKind.repr) ("kind " ++ event.kind.repr))
    else if s.hasPTag crypto event then .ok ()
    else .error (.invalidPubkey "event p-tag does not match our ephemeral pubkey")

def validateEventFromPeer (event : Event) (s : PairingSession) : Except PairingError Unit :=
  match s.validateEventBasics crypto event with
  | .error e => .error e
  | .ok () =>
    match s.peerPubkey with
    | some expected =>
      if event.pubkey ≠ expected then
        .error (.invalidPubkey
          ("event from " ++ event.pubkey.toHex ++ " but expected " ++ expected.toHex))
      else .ok ()
    | none => .ok ()

/-! ## Parts of methods on `&mut self` -/

def setState (state : SessionState) : Call PUnit := modify fun s => { s with state }

def recordEvent (event : Event) : Call PUnit :=
  modify fun s => { s with processedIds := insert event.id s.processedIds }

/-- For the relay, which authenticates the session's own key. -/
def signEvent (builder : EventBuilder) (s : PairingSession) : Except PairingError Event :=
  match crypto.signWithKeys s.keys builder env.aux with
  | .error e => .error (.signingError e)
  | .ok event => .ok event

/-! ## The source -/

def newSource (secretKey : SecretKey) (sessionSecret : FixedBytes 32) (relayUrl : String) :
    PairingSession × QrPayload :=
  ({ role := .source
     state := .waiting
     keys := secretKey
     sessionSecret
     relayUrls := [relayUrl]
     peerPubkey := none
     sessionId := crypto.deriveSessionId sessionSecret
     sasCode := none
     sasInput := none
     processedIds := ∅
     createdAt := env.now
     timeout := defaultTimeout },
   { version := 1
     sourcePubkey := crypto.publicKey secretKey
     sessionSecret
     relays := [relayUrl] })

def handleOffer (event : Event) : Call String := do
  .reads (checkExpired env)
  .reads (expectState .waiting)
  .reads (expectRole .source)
  .reads (validateEventBasics crypto event)
  let msg ← .reads (decryptMessage crypto event)
  let (sessionIdHex, version) ← .ofExcept (match msg with
    | .offer sessionId version => .ok (sessionId, version)
    | other => .error (unexpected "offer" other))
  .ofExcept (if version ≠ 1 then
      .error (.unexpectedMessage "version 1" ("version " ++ version.toNat.repr))
    else .ok ())
  .reads fun s =>
    match decodeHash sessionIdHex with
    | some id => if id = s.sessionId then .ok () else .error .invalidSessionId
    | none => .error .invalidSessionId
  -- lock to this peer
  let peer := event.pubkey
  modify fun s => { s with peerPubkey := some peer }
  let ecdh ← .reads fun s =>
    match crypto.generateSharedKey s.keys peer with
    | .ok key => .ok key
    | .error e => .error (.signingError e)
  let (code, sasInput) ← .reads fun s => .ok (crypto.deriveSas ecdh s.sessionSecret)
  modify fun s => { s with sasCode := some code, sasInput := some sasInput }
  setState .confirming
  recordEvent event
  return formatSas code

def confirmSas : Call Event := do
  .reads (checkExpired env)
  .reads (expectState .confirming)
  .reads (expectRole .source)
  let sasInput ← .reads fun s => okOr s.sasInput .sasMismatch
  let peer ← .reads fun s => okOr s.peerPubkey (.invalidPubkey "no peer")
  let transcriptHash ← .reads fun s =>
    .ok (crypto.deriveTranscriptHash s.sessionId (s.pubkey crypto) peer sasInput s.sessionSecret)
  let event ← .reads (buildEvent crypto env (.sasConfirm transcriptHash.toHex))
  setState .transferring
  return event

def sendPayload (payloadType : PayloadType) (payload : String) : Call Event := do
  .reads (checkExpired env)
  .reads (expectState .transferring)
  .reads (expectRole .source)
  let event ← .reads (buildEvent crypto env (.payload payloadType payload))
  setState .payloadExchanged
  return event

def handleComplete (event : Event) : Call Unit := do
  .reads (checkExpired env)
  .reads (expectState .payloadExchanged)
  .reads (expectRole .source)
  .reads (validateEventFromPeer crypto event)
  let msg ← .reads (decryptMessage crypto event)
  match msg with
  | .complete true =>
    setState .completed
    recordEvent event
  | .complete false =>
    -- not recorded: the message was not processed
    setState .aborted
    throw (.unexpectedMessage "complete(success=true)" "complete(success=false)")
  | other => throw (unexpected "complete" other)

/-! ## The target -/

def newTarget (secretKey : SecretKey) (qr : QrPayload) :
    Except PairingError (PairingSession × Event) := do
  let sessionId := crypto.deriveSessionId qr.sessionSecret
  match crypto.generateSharedKey secretKey qr.sourcePubkey with
  | .error e => .error (.signingError e)
  | .ok ecdh =>
    let (code, sasInput) := crypto.deriveSas ecdh qr.sessionSecret
    let session : PairingSession :=
      { role := .target
        state := .waiting
        keys := secretKey
        sessionSecret := qr.sessionSecret
        relayUrls := qr.relays
        peerPubkey := some qr.sourcePubkey
        sessionId
        sasCode := some code
        sasInput := some sasInput
        processedIds := ∅
        createdAt := env.now
        timeout := defaultTimeout }
    match session.buildEvent crypto env (.offer sessionId.toHex 1) with
    | .error e => .error e
    | .ok event => .ok ({ session with state := .confirming }, event)

def handleSasConfirm (event : Event) : Call String := do
  .reads (checkExpired env)
  .reads (expectState .confirming)
  .reads (expectRole .target)
  .reads (validateEventFromPeer crypto event)
  let msg ← .reads (decryptMessage crypto event)
  let receivedHash ← .ofExcept (match msg with
    | .sasConfirm transcriptHash => .ok transcriptHash
    | other => .error (unexpected "sas-confirm" other))
  let sasInput ← .reads fun s => okOr s.sasInput .sasMismatch
  let peer ← .reads fun s => okOr s.peerPubkey (.invalidPubkey "no peer")
  let expectedHash ← .reads fun s =>
    .ok (crypto.deriveTranscriptHash s.sessionId peer (s.pubkey crypto) sasInput s.sessionSecret)
  if decodeHash receivedHash = some expectedHash then
    setState .awaitingConfirmation
    recordEvent event
    let code ← .reads fun s => okOr s.sasCode .sasMismatch
    return formatSas code
  else
    setState .aborted
    throw .transcriptMismatch

def confirmTargetSas : Call Unit := do
  .reads (checkExpired env)
  .reads (expectState .awaitingConfirmation)
  .reads (expectRole .target)
  setState .transferring

def handlePayload (event : Event) : Call (PayloadType × String) := do
  .reads (checkExpired env)
  .reads (expectState .transferring)
  .reads (expectRole .target)
  .reads (validateEventFromPeer crypto event)
  let msg ← .reads (decryptMessage crypto event)
  match msg with
  | .payload payloadType payload =>
    setState .payloadExchanged
    recordEvent event
    return (payloadType, payload)
  | other => throw (unexpected "payload" other)

def sendComplete : Call Event := do
  .reads (checkExpired env)
  .reads (expectState .payloadExchanged)
  .reads (expectRole .target)
  let event ← .reads (buildEvent crypto env (.complete true))
  setState .completed
  return event

/-! ## Both -/

def abort (reason : AbortReason) : Call (Option Event) := do
  .reads expectNonTerminal
  let peer ← .reads fun s => .ok s.peerPubkey
  if peer.isNone then
    setState .aborted
    return none
  else
    let event ← .reads (buildEvent crypto env (.abort reason))
    setState .aborted
    return some event

def handleAbort (event : Event) : Call AbortReason := do
  .reads expectNonTerminal
  -- an abort before the offer could come from anyone
  let _ ← .reads fun s =>
    okOr s.peerPubkey (.invalidPubkey "cannot accept abort before peer is known")
  .reads (validateEventFromPeer crypto event)
  let msg ← .reads (decryptMessage crypto event)
  match msg with
  | .abort reason =>
    setState .aborted
    recordEvent event
    return reason
  | other => throw (unexpected "abort" other)

end PairingSession

end Pkzz.Pairing
