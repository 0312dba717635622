import Pkzz.Core.Ids
import Pkzz.Lib.Json

/-!
# Pairing messages and events

The messages of a device pairing as `serde` writes them, the Nostr events that carry them,
and the derivations of `pairing::crypto`. The crates for signatures, elliptic curves, HMAC,
NIP-44 and the derived deserializer are parameters (`Crypto`).
-/

namespace Pkzz.Pairing

open Pkzz.Core Pkzz.Lib

/-! ## Messages -/

inductive PayloadType where
  | nsec
  | bunker
  | connect
  | custom
  deriving DecidableEq

inductive AbortReason where
  | sasMismatch
  | userDenied
  | timeout
  | protocolError
  | unknown
  deriving DecidableEq

inductive PairingMessage where
  | offer (sessionId : String) (version : UInt32)
  | sasConfirm (transcriptHash : String)
  | payload (payloadType : PayloadType) (content : String)
  | complete (success : Bool)
  | abort (reason : AbortReason)
  deriving DecidableEq

/-- `rename_all = "snake_case"`. -/
def PayloadType.name : PayloadType → String
  | nsec => "nsec"
  | bunker => "bunker"
  | connect => "connect"
  | custom => "custom"

def AbortReason.name : AbortReason → String
  | sasMismatch => "sas_mismatch"
  | userDenied => "user_denied"
  | timeout => "timeout"
  | protocolError => "protocol_error"
  | unknown => "unknown"

namespace PairingMessage

/-- The tag, `rename_all = "kebab-case"`. -/
def name : PairingMessage → String
  | offer _ _ => "offer"
  | sasConfirm _ => "sas-confirm"
  | payload _ _ => "payload"
  | complete _ => "complete"
  | abort _ => "abort"

def fields : PairingMessage → List (String × Json)
  | offer sessionId version =>
      [("session_id", .str sessionId), ("version", .num (.ofNat version.toNat))]
  | sasConfirm transcriptHash => [("transcript_hash", .str transcriptHash)]
  | payload payloadType content =>
      [("payload_type", .str payloadType.name), ("payload", .str content)]
  | complete success => [("success", .bool success)]
  | abort reason => [("reason", .str reason.name)]

/-- `serde_json::to_string`. -/
def text (m : PairingMessage) : String :=
  String.ofList (Json.text (.obj (("type", .str m.name) :: m.fields)))

end PairingMessage

theorem PayloadType.name_inj {a b : PayloadType} (h : a.name = b.name) : a = b := by
  revert h
  cases a <;> cases b <;> decide

theorem AbortReason.name_inj {a b : AbortReason} (h : a.name = b.name) : a = b := by
  revert h
  cases a <;> cases b <;> decide

/-- The text determines the message. -/
theorem PairingMessage.text_inj {m m' : PairingMessage} (h : m.text = m'.text) : m = m' := by
  unfold text at h
  have hjson := Json.text_inj (String.ofList_injective h)
  obtain ⟨hname, hfields⟩ := List.cons.inj (Json.obj.inj hjson)
  have hname := Json.str.inj (Prod.mk.inj hname).2
  cases m with
  | offer sessionId version =>
    cases m' with
    | offer sessionId' version' =>
      unfold fields at hfields
      obtain ⟨hid, hversion⟩ := List.cons.inj hfields
      have hversion := JsonNumber.ofNat_inj
          (Json.num.inj (Prod.mk.inj (List.cons.inj hversion).1).2)
      rw [Json.str.inj (Prod.mk.inj hid).2, UInt32.toNat_inj.mp hversion]
    | _ => simp [name] at hname
  | sasConfirm hash =>
    cases m' with
    | sasConfirm hash' =>
      unfold fields at hfields
      rw [Json.str.inj (Prod.mk.inj (List.cons.inj hfields).1).2]
    | _ => simp [name] at hname
  | payload payloadType content =>
    cases m' with
    | payload payloadType' content' =>
      unfold fields at hfields
      obtain ⟨htype, hcontent⟩ := List.cons.inj hfields
      rw [PayloadType.name_inj (Json.str.inj (Prod.mk.inj htype).2),
        Json.str.inj (Prod.mk.inj (List.cons.inj hcontent).1).2]
    | _ => simp [name] at hname
  | complete success =>
    cases m' with
    | complete success' =>
      unfold fields at hfields
      rw [Json.bool.inj (Prod.mk.inj (List.cons.inj hfields).1).2]
    | _ => simp [name] at hname
  | abort reason =>
    cases m' with
    | abort reason' =>
      unfold fields at hfields
      rw [AbortReason.name_inj (Json.str.inj (Prod.mk.inj (List.cons.inj hfields).1).2)]
    | _ => simp [name] at hname

/-! ## Errors -/

inductive PairingError where
  | invalidQr (e : String)
  | invalidSessionId
  | sasMismatch
  | transcriptMismatch
  | unexpectedMessage (expected got : String)
  | sessionExpired
  | nip44 (e : String)
  | json (e : String)
  | invalidPubkey (e : String)
  | signingError (e : String)
  deriving DecidableEq

/-- A message of another kind. -/
def unexpected (expected : String) (got : PairingMessage) : PairingError :=
  .unexpectedMessage expected got.name

/-! ## Events -/

abbrev PublicKey := FixedBytes 32

abbrev SecretKey := FixedBytes 32

structure Event where
  id : FixedBytes 32
  pubkey : PublicKey
  createdAt : Nat
  kind : Nat
  tags : List (List String)
  content : String
  sig : FixedBytes 64
  deriving DecidableEq

/-- `EventBuilder`. -/
structure EventBuilder where
  createdAt : Nat
  kind : Nat
  tags : List (List String)
  content : String

def pairingKind : Nat := 24134

/-! ## What comes from other crates -/

structure Crypto where
  publicKey : SecretKey → PublicKey
  /-- The id and the signature of an event; the last argument is the signer's randomness. -/
  sign : SecretKey → EventBuilder → FixedBytes 32 → Except String (FixedBytes 32 × FixedBytes 64)
  verify : Event → Except String Unit
  generateSharedKey : SecretKey → PublicKey → Except String (FixedBytes 32)
  hkdfExtract : List UInt8 → List UInt8 → FixedBytes 32
  hkdfExpand : FixedBytes 32 → List UInt8 → (n : Nat) → FixedBytes n
  /-- Of `nip44`, under the key both sides derive from their shared key; the second argument is
  the nonce. -/
  encryptWith : FixedBytes 32 → FixedBytes 32 → String → Except String String
  decryptWith : FixedBytes 32 → String → Except String String
  /-- `serde_json::from_str`. -/
  fromStr : String → Except String PairingMessage

namespace Crypto

variable (crypto : Crypto)

/-- `nip44::encrypt`. -/
def encrypt (secret : SecretKey) (peer : PublicKey) (nonce : FixedBytes 32) (plaintext : String) :
    Except String String :=
  match crypto.generateSharedKey secret peer with
  | .ok key => crypto.encryptWith key nonce plaintext
  | .error e => .error e

/-- `nip44::decrypt`. -/
def decrypt (secret : SecretKey) (peer : PublicKey) (content : String) : Except String String :=
  match crypto.generateSharedKey secret peer with
  | .ok key => crypto.decryptWith key content
  | .error e => .error e

/-- `sign_with_keys`. -/
def signWithKeys (secret : SecretKey) (builder : EventBuilder) (aux : FixedBytes 32) :
    Except String Event :=
  match crypto.sign secret builder aux with
  | .ok (id, sig) =>
    .ok ⟨id, crypto.publicKey secret, builder.createdAt, builder.kind, builder.tags,
      builder.content, sig⟩
  | .error e => .error e

/-! ## Derivations -/

def hkdf32 (salt ikm info : List UInt8) : FixedBytes 32 :=
  crypto.hkdfExpand (crypto.hkdfExtract salt ikm) info 32

def deriveSessionId (sessionSecret : FixedBytes 32) : FixedBytes 32 :=
  crypto.hkdf32 [] sessionSecret.bytes (Str.asBytes "nostr-pair-session-id")

/-- The SAS code, and the bytes it is taken from. -/
def deriveSas (ecdhShared sessionSecret : FixedBytes 32) : Nat × FixedBytes 32 :=
  let sasInput := crypto.hkdf32 sessionSecret.bytes ecdhShared.bytes
      (Str.asBytes "nostr-pair-sas-v1")
  ((sasInput.bytes.take 4).foldl (fun n b => 256 * n + b.toNat) 0 % 1000000, sasInput)

def deriveTranscriptHash (sessionId : FixedBytes 32) (sourcePubkey targetPubkey : PublicKey)
    (sasInput sessionSecret : FixedBytes 32) : FixedBytes 32 :=
  crypto.hkdf32 sessionSecret.bytes
    (sessionId.bytes ++ sourcePubkey.bytes ++ targetPubkey.bytes ++ sasInput.bytes)
    (Str.asBytes "nostr-pair-transcript-v1")

end Crypto

def formatSas (code : Nat) : String := String.ofList (Str.zeroPadded 6 code)

/-! ## Hex text -/

def hexVal (c : Char) : Option Nat :=
  if '0' ≤ c ∧ c ≤ '9' then some (c.toNat - '0'.toNat)
  else if 'a' ≤ c ∧ c ≤ 'f' then some (c.toNat - 'a'.toNat + 10)
  else if 'A' ≤ c ∧ c ≤ 'F' then some (c.toNat - 'A'.toNat + 10)
  else none

/-- `hex::decode`. -/
def hexDecode : List Char → Option (List UInt8)
  | [] => some []
  | [_] => none
  | c :: d :: rest => do
      let hi ← hexVal c
      let lo ← hexVal d
      let bytes ← hexDecode rest
      return UInt8.ofNat (16 * hi + lo) :: bytes

/-- `<[u8; 32]>::try_from`. -/
def tryFrom (bytes : List UInt8) : Option (FixedBytes 32) :=
  if h : bytes.length = 32 then some ⟨bytes, h⟩ else none

def decodeHash (s : String) : Option (FixedBytes 32) := (hexDecode s.toList).bind tryFrom

end Pkzz.Pairing
