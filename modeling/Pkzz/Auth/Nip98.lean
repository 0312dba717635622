import Mathlib.Data.List.DropRight
import Pkzz.Core.Filter

/-!
# NIP-98 credentials

`buzz-auth`'s `nip98.rs`: a signed event of kind 27235 names the URL and the method of the one
request it was made for. Verification keeps no state. What it says about time is that the
second of the verifier's clock is within sixty of the event's (`verifyNip98Event_ok`).
-/

namespace Pkzz.Auth

open Pkzz.Core Pkzz.Lib

/-- An event with the fields that its id and its signature are made of. -/
structure SignedEvent extends Event where
  content : String
  sig : FixedBytes 64

inductive AuthError where
  | nip98Invalid (message : String)
  | internal (message : String)

inductive VerificationError where
  | invalidId (computed got : String)
  | invalidSignature

/-- What the verifier takes from its crates and from the Unicode tables. -/
structure Nip98Crates where
  /-- `serde_json::from_str::<Event>`, with the text of the error. -/
  fromStr : String → Except String SignedEvent
  /-- The hash of the canonical form. -/
  eventId : PublicKey → Timestamp → Kind → List Tag → String → EventId
  verifySignature : SignedEvent → Bool
  sha256 : List UInt8 → FixedBytes 32
  toLowercase : String → String
  Url : Type
  parse : String → Option Url
  path : Url → String
  setPath : Url → String → Url
  toString : Url → String

def KIND_HTTP_AUTH : Kind := 27235

def TIMESTAMP_TOLERANCE_SECS : Nat := 60

def absDiff (a b : Nat) : Nat := (a - b) + (b - a)

section

variable (crates : Nip98Crates)

/-- `Event::verify_id`. -/
def verifyId (event : SignedEvent) : Bool :=
  event.id = crates.eventId event.pubkey event.createdAt event.kind event.tags event.content

def verifyEvent (event : SignedEvent) : Except VerificationError Unit :=
  if !verifyId crates event then
    .error (.invalidId
      (crates.eventId event.pubkey event.createdAt event.kind event.tags event.content).toHex
        event.id.toHex)
  else if !crates.verifySignature event then .error .invalidSignature
  else .ok ()

/-- Scheme and host in lower case, no slash at the end of the path. -/
def normalizeUrl (raw : String) : String :=
  match crates.parse raw with
  | none => crates.toLowercase raw
  | some parsed =>
    let path := String.ofList ((crates.path parsed).toList.rdropWhile (· == '/'))
    crates.toString (crates.setPath parsed path)

/-- `event.tags.find(kind).and_then(|t| t.content())`. -/
def tagContent (event : SignedEvent) (kind : String) : Option String :=
  (event.tags.find? fun t => t.kind = kind).bind Tag.content

/-- The `payload` tag binds the body, if both are there. -/
def checkPayload (event : SignedEvent) (body : Option (List UInt8)) : Except AuthError Unit :=
  match tagContent event "payload", body with
  | some payloadHex, some bodyBytes =>
    if (crates.sha256 bodyBytes).toHex ≠ payloadHex then
      .error (.nip98Invalid "payload tag SHA-256 mismatch: request body does not match signed hash")
    else .ok ()
  | _, _ => .ok ()

/-- Steps 5 to 7: what the event was signed for is the request. -/
def checkBinding (event : SignedEvent) (expectedUrl expectedMethod : String)
    (body : Option (List UInt8)) : Except AuthError Unit :=
  match tagContent event "u" with
  | none => .error (.nip98Invalid "missing `u` tag")
  | some uTag =>
    if normalizeUrl crates uTag ≠ normalizeUrl crates expectedUrl then
      .error (.nip98Invalid ("URL mismatch: event has `" ++ uTag ++ "`, expected `" ++
        expectedUrl ++ "`"))
    else
      match tagContent event "method" with
      | none => .error (.nip98Invalid "missing `method` tag")
      | some methodTag =>
        if !Str.eqIgnoreAsciiCase methodTag expectedMethod then
          .error (.nip98Invalid
            ("method mismatch: event has `" ++ methodTag ++ "`, expected `" ++
              expectedMethod ++ "`"))
        else checkPayload crates event body

/-- `verify_nip98_event`, at the second `now` of the verifier's clock. -/
def verifyNip98Event (now : Nat) (eventJson expectedUrl expectedMethod : String)
    (body : Option (List UInt8)) : Except AuthError PublicKey :=
  match crates.fromStr eventJson with
  | .error e => .error (.nip98Invalid ("event JSON parse error: " ++ e))
  | .ok event =>
    if event.kind ≠ KIND_HTTP_AUTH then
      .error (.nip98Invalid ("expected kind 27235, got " ++ event.kind.toNat.repr))
    else
      match verifyEvent crates event with
      | .error _ => .error (.nip98Invalid "invalid Schnorr signature")
      | .ok () =>
        if absDiff now event.createdAt > TIMESTAMP_TOLERANCE_SECS then
          .error (.nip98Invalid ("event timestamp outside ±" ++ TIMESTAMP_TOLERANCE_SECS.repr
            ++ "s window (delta: " ++ (absDiff now event.createdAt).repr ++ "s)"))
        else
          match checkBinding crates event expectedUrl expectedMethod body with
          | .error e => .error e
          | .ok () => .ok event.pubkey

end

variable {crates : Nip98Crates} {now : Nat} {eventJson expectedUrl expectedMethod : String}
  {body : Option (List UInt8)} {pubkey : PublicKey}

/-- What an accepted credential is, as far as its id and its second are concerned. -/
structure Accepted (crates : Nip98Crates) (now : Nat) (event : SignedEvent) : Prop where
  id_eq : event.id = crates.eventId event.pubkey event.createdAt event.kind event.tags event.content
  not_late : now ≤ event.createdAt + TIMESTAMP_TOLERANCE_SECS
  not_early : now + TIMESTAMP_TOLERANCE_SECS ≥ event.createdAt

/-- **An accepted event is within a minute of the clock's second, on either side.** -/
theorem verifyNip98Event_ok
    (h : verifyNip98Event crates now eventJson expectedUrl expectedMethod body = .ok pubkey) :
    ∃ event, crates.fromStr eventJson = .ok event ∧ pubkey = event.pubkey ∧
      Accepted crates now event := by
  unfold verifyNip98Event at h
  split at h
  · cases h
  rename_i event hevent
  split at h
  · cases h
  split at h
  · cases h
  rename_i hverified
  split at h
  · cases h
  rename_i hdelta
  split at h
  · cases h
  refine ⟨event, hevent, (Except.ok.inj h).symm, ?_, ?_, ?_⟩
  · unfold verifyEvent at hverified
    split at hverified
    · cases hverified
    · rename_i hid
      unfold verifyId at hid
      simpa using hid
  · unfold absDiff at hdelta
    omega
  · unfold absDiff at hdelta
    omega

end Pkzz.Auth
