import Pkzz.Core.Ids
import Pkzz.Lib.Base64
import Pkzz.Lib.Map

/-!
# The records of the host-final outbox

A record keeps the signed event as long as it may be sent again. A terminal record is a tombstone:
it keeps the source events, so that they are not answered a second time, and no body.
-/

namespace Pkzz.Acp.FinalDelivery

open Pkzz.Core Pkzz.Lib

def MAX_LOGICAL_RECEIPT_SUBMISSIONS : Nat := 2

inductive HostFinalDeliveryState
  | pending
  | awaitingRetry
  | accepted
  | terminalFailed
  deriving DecidableEq

structure HostFinalDeliveryRecord where
  version : Nat
  eventId : String
  /-- Base64 of the signed event. -/
  eventBytesB64 : Option String
  relayUrl : String
  senderPubkey : String
  channelId : String
  triggerEventId : String
  sourceEventIds : List String
  logicalAttempts : Nat
  state : HostFinalDeliveryState
  nextAttemptUnixMs : Option Nat
  diagnostic : Option String
  deriving DecidableEq

namespace HostFinalDeliveryRecord

def compactTerminalBody (r : HostFinalDeliveryRecord) : HostFinalDeliveryRecord :=
  { r with eventBytesB64 := none, nextAttemptUnixMs := none }

def accept (r : HostFinalDeliveryRecord) : HostFinalDeliveryRecord :=
  { ({ r with state := .accepted } : HostFinalDeliveryRecord).compactTerminalBody with
    diagnostic := none }

def terminalize (r : HostFinalDeliveryRecord) (diagnostic : String) : HostFinalDeliveryRecord :=
  { ({ r with state := .terminalFailed } : HostFinalDeliveryRecord).compactTerminalBody with
    diagnostic := some diagnostic }

def isTerminal (r : HostFinalDeliveryRecord) : Bool :=
  match r.state with
  | .accepted | .terminalFailed => true
  | .pending | .awaitingRetry => false

end HostFinalDeliveryRecord

/-- The relay and the identity that an outbox is for. -/
structure OutboxScope where
  relayUrl : String
  senderPubkey : String

structure LoadIssue where
  eventId : Option String
  channelId : Option Uuid
  reason : String

structure OutboxIndex where
  records : Map String HostFinalDeliveryRecord
  sourceEventIds : Finset String
  loadIssues : List LoadIssue

/-- `OutboxIndex::default()`. -/
def OutboxIndex.empty : OutboxIndex := ⟨∅, ∅, []⟩

/-! ## The body -/

def encodeEventBytes (eventBytes : List UInt8) : String := String.ofList (Base64.encode eventBytes)

def decodeEventBytes (record : HostFinalDeliveryRecord) : Except String (List UInt8) :=
  match record.eventBytesB64 with
  | none => .error "record_body_missing"
  | some encoded =>
    match Base64.decode encoded.toList with
    | none => .error "record_bytes_invalid"
    | some bytes => .ok bytes

theorem decodeEventBytes_encode {record : HostFinalDeliveryRecord} {bytes : List UInt8}
    (h : record.eventBytesB64 = some (encodeEventBytes bytes)) :
    decodeEventBytes record = .ok bytes := by
  rw [decodeEventBytes, h]
  dsimp only
  rw [encodeEventBytes, String.toList_ofList, Base64.decode_encode]

/-! ## Validation -/

/-- `EventId::from_hex`. -/
def eventIdFromHex (hex : String) : Option EventId :=
  match decodeHex hex.toList with
  | some bytes => if h : bytes.length = 32 then some ⟨bytes, h⟩ else none
  | none => none

theorem eventIdFromHex_toHex (e : EventId) : eventIdFromHex e.toHex = some e := by
  rw [eventIdFromHex, FixedBytes.toList_toHex, decodeHex_hexByte]
  dsimp only
  rw [dif_pos e.length_eq]

def isHexEventId (value : String) : Bool :=
  Str.len value == 64 && value.toList.all Str.isAsciiHexdigit

theorem isHexEventId_toHex (e : EventId) : isHexEventId e.toHex = true := by
  rw [isHexEventId, FixedBytes.len_toHex, Bool.and_eq_true, List.all_eq_true]
  refine ⟨rfl, ?_⟩
  intro c hc
  have hlower := FixedBytes.toHex_isLowerHexdigit e c hc
  unfold FixedBytes.isLowerHexdigit at hlower
  unfold Str.isAsciiHexdigit
  rw [hlower, Bool.true_or]

/-- What `serde_json` and `nostr` make of a body: its id, its author, and whether `verify` accepts
it. -/
structure SignedEvent where
  id : EventId
  pubkey : PublicKey
  verifies : Bool

/-- Whether a source is the trigger, if all of them are event ids. -/
def containsTrigger (triggerEventId : EventId) : List String → Option Bool
  | [] => some false
  | source :: sources =>
    match eventIdFromHex source, containsTrigger triggerEventId sources with
    | some sourceEventId, some contains => some (sourceEventId = triggerEventId || contains)
    | _, _ => none

section Validation

variable (parse : List UInt8 → Option SignedEvent)

def validateSignedEventBody (record : HostFinalDeliveryRecord) (expectedEventId : EventId) :
    Except String Unit :=
  match decodeEventBytes record with
  | .error reason => .error reason
  | .ok bytes =>
    match parse bytes with
    | none => .error "record_event_invalid"
    | some event =>
      if event.id ≠ expectedEventId ∨ event.pubkey.toHex ≠ record.senderPubkey ∨
        event.verifies = false then
        .error "record_signature_invalid"
      else .ok ()

def validateRecord (record : HostFinalDeliveryRecord) (scope : OutboxScope) : Except String Unit :=
  if record.relayUrl ≠ scope.relayUrl ∨ record.senderPubkey ≠ scope.senderPubkey then
    .error "record_scope_mismatch"
  else if record.version ≠ 1 ∨ isHexEventId record.eventId = false ∨
    record.logicalAttempts > MAX_LOGICAL_RECEIPT_SUBMISSIONS ∨
      record.sourceEventIds = [] then .error "record_metadata_invalid"
  else
    match eventIdFromHex record.eventId, eventIdFromHex record.triggerEventId,
        Uuid.parse record.channelId with
    | none, _, _ => .error "record_event_id_invalid"
    | _, none, _ => .error "record_trigger_id_invalid"
    | _, _, none => .error "record_channel_id_invalid"
    | some expectedEventId, some triggerEventId, some _ =>
      match containsTrigger triggerEventId record.sourceEventIds with
      | none => .error "record_source_id_invalid"
      | some false => .error "record_trigger_not_claimed"
      | some true =>
        if record.isTerminal && record.nextAttemptUnixMs.isSome then
          .error "record_terminal_retry_scheduled"
        else
          match record.eventBytesB64 with
          | some _ => validateSignedEventBody parse record expectedEventId
          | none => if record.isTerminal then .ok () else .error "record_body_missing"

end Validation

/-- The record is of another relay or another identity. -/
def Foreign (scope : OutboxScope) (record : HostFinalDeliveryRecord) : Prop :=
  record.relayUrl ≠ scope.relayUrl ∨ record.senderPubkey ≠ scope.senderPubkey

instance (scope : OutboxScope) (record : HostFinalDeliveryRecord) :
    Decidable (Foreign scope record) :=
  inferInstanceAs (Decidable (_ ∨ _))

variable {parse : List UInt8 → Option SignedEvent} {record : HostFinalDeliveryRecord}
    {scope : OutboxScope}

theorem validateSignedEventBody_ne {expectedEventId : EventId} :
    validateSignedEventBody parse record expectedEventId ≠ .error "record_scope_mismatch" := by
  unfold validateSignedEventBody decodeEventBytes
  intro h
  split at h
  · rename_i hdecode
    split at hdecode
    · rw [← Except.error.inj hdecode] at h
      exact absurd (Except.error.inj h) (by decide)
    split at hdecode
    · rw [← Except.error.inj hdecode] at h
      exact absurd (Except.error.inj h) (by decide)
    · cases hdecode
  · split at h
    · exact absurd (Except.error.inj h) (by decide)
    · split at h
      · exact absurd (Except.error.inj h) (by decide)
      · cases h

/-- **Only a record of another scope is told to be one.** -/
theorem validateRecord_scope_mismatch :
    validateRecord parse record scope = .error "record_scope_mismatch" ↔ Foreign scope record := by
  constructor
  · intro h
    by_contra hforeign
    unfold Foreign at hforeign
    rw [validateRecord, if_neg hforeign] at h
    split at h
    · exact absurd (Except.error.inj h) (by decide)
    split at h
    · exact absurd (Except.error.inj h) (by decide)
    · exact absurd (Except.error.inj h) (by decide)
    · exact absurd (Except.error.inj h) (by decide)
    · split at h
      · exact absurd (Except.error.inj h) (by decide)
      · exact absurd (Except.error.inj h) (by decide)
      · split at h
        · exact absurd (Except.error.inj h) (by decide)
        · split at h
          · exact validateSignedEventBody_ne h
          · split at h
            · cases h
            · exact absurd (Except.error.inj h) (by decide)
  · intro h
    rw [validateRecord]
    exact if_pos h

end Pkzz.Acp.FinalDelivery
