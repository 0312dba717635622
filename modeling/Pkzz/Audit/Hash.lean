import Pkzz.Audit.Timestamp
import Pkzz.Core.Ids
import Pkzz.Lib.JsonKeys

/-!
# Audit entries and their hash

`buzz-audit`'s `entry.rs`, `action.rs` and `hash.rs`: the fields of an entry of a
community's audit chain, and the octets that are hashed for it. The fields of variable
length stand next to each other with a presence tag in front and nothing behind.
-/

namespace Pkzz.Audit

open Pkzz.Core Pkzz.Lib

inductive AuditAction where
  | eventCreated
  | eventDeleted
  | channelCreated
  | channelUpdated
  | channelDeleted
  | memberAdded
  | memberRemoved
  | authSuccess
  | authFailure
  | rateLimitExceeded
  | mediaUploaded
  deriving DecidableEq

namespace AuditAction

def asStr : AuditAction → String
  | eventCreated => "event_created"
  | eventDeleted => "event_deleted"
  | channelCreated => "channel_created"
  | channelUpdated => "channel_updated"
  | channelDeleted => "channel_deleted"
  | memberAdded => "member_added"
  | memberRemoved => "member_removed"
  | authSuccess => "auth_success"
  | authFailure => "auth_failure"
  | rateLimitExceeded => "rate_limit_exceeded"
  | mediaUploaded => "media_uploaded"

def all : List AuditAction :=
  [eventCreated, eventDeleted, channelCreated, channelUpdated, channelDeleted, memberAdded,
    memberRemoved, authSuccess, authFailure, rateLimitExceeded, mediaUploaded]

theorem mem_all (a : AuditAction) : a ∈ all := by
  cases a <;> decide

theorem asStr_inj {a b : AuditAction} (h : a.asStr = b.asStr) : a = b := by
  have hall : ∀ a ∈ all, ∀ b ∈ all, a.asStr = b.asStr → a = b := by decide
  exact hall a (mem_all a) b (mem_all b) h

end AuditAction

/-- `serde_json::Value`: its objects are maps. -/
structure Value where
  json : Json
  distinct : json.distinctKeys = true

structure AuditEntry where
  communityId : Uuid
  seq : Int64
  hash : List UInt8
  prevHash : Option (List UInt8)
  action : AuditAction
  actorPubkey : Option (List UInt8)
  objectId : Option String
  detail : Value
  createdAt : DateTime

def genesisHash : List UInt8 := List.replicate 32 0

/-! ## Canonical JSON -/

/-- The loop over the fields of an object, once the text of each value is there. -/
def joinFields (first : Bool) : List (String × List Char) → List Char
  | [] => []
  | (k, v) :: fs => comma first ++ (quote k ++ ':' :: (v ++ joinFields false fs))

mutual

def canonicalJson : Json → List Char
  | .obj fields => '{' :: (joinFields true (Json.sortByKey (canonicalFields fields)) ++ ['}'])
  | .arr items => '[' :: (canonicalItems true items ++ [']'])
  | .null => Json.text .null
  | .bool b => Json.text (.bool b)
  | .num n => Json.text (.num n)
  | .str s => Json.text (.str s)

def canonicalItems (first : Bool) : List Json → List Char
  | [] => []
  | v :: vs => comma first ++ (canonicalJson v ++ canonicalItems false vs)

def canonicalFields : List (String × Json) → List (String × List Char)
  | [] => []
  | (k, v) :: fs => (k, canonicalJson v) :: canonicalFields fs

end

/-! ## The preimage -/

/-- `i64::to_be_bytes`. -/
def toBeBytes (n : Int64) : List UInt8 := (FixedBytes.ofNat 8 n.toUInt64.toNat).bytes

/-- A presence tag, and the field. -/
def actorPart : Option (List UInt8) → List UInt8
  | some pk => 1 :: pk
  | none => [0]

def objectPart : Option String → List UInt8
  | some id => 1 :: Str.asBytes id
  | none => [0]

/-- The first entry of a chain is hashed with zeros. -/
def prevPart : Option (List UInt8) → List UInt8
  | some h => h
  | none => genesisHash

namespace AuditEntry

/-- What `compute_hash` feeds to SHA-256. -/
def preimage (e : AuditEntry) : List UInt8 :=
  e.communityId.bytes ++ (toBeBytes e.seq
    ++ (Str.asBytes e.createdAt.toStoragePrecision.toRfc3339
    ++ (Str.asBytes e.action.asStr
    ++ (actorPart e.actorPubkey
    ++ (objectPart e.objectId
    ++ (Str.asBytes (String.ofList (canonicalJson e.detail.json))
    ++ prevPart e.prevHash))))))

def computeHash (sha256 : List UInt8 → FixedBytes 32) (e : AuditEntry) : FixedBytes 32 :=
  sha256 e.preimage

end AuditEntry

/-! ## Canonical JSON is the text of the sorted value -/

theorem joinFields_eq_fieldsText (first : Bool) (fs : List (String × Json)) :
    joinFields first (fs.map fun f => (f.1, Json.text f.2)) = Json.fieldsText first fs := by
  induction fs generalizing first with
  | nil => rw [List.map_nil, joinFields, Json.fieldsText]
  | cons f fs ih =>
    obtain ⟨k, v⟩ := f
    rw [List.map_cons, joinFields, ih, Json.fieldsText]

mutual

theorem canonicalJson_eq_text : ∀ v : Json, canonicalJson v = Json.text v.sortKeys
  | .null => by rw [canonicalJson, Json.sortKeys]
  | .bool b => by rw [canonicalJson, Json.sortKeys]
  | .num n => by rw [canonicalJson, Json.sortKeys]
  | .str s => by rw [canonicalJson, Json.sortKeys]
  | .arr items => by
    rw [canonicalJson, Json.sortKeys, Json.text, canonicalItems_eq_itemsText true items]
  | .obj fields => by
    have hsort : Json.sortByKey (canonicalFields fields)
        = (Json.sortByKey (Json.sortKeysFields fields)).map fun f => (f.1, Json.text f.2) := by
      rw [canonicalFields_eq_map fields]
      exact Json.sortByKey_map (fun _ v => Json.text v) _
    rw [canonicalJson, Json.sortKeys, Json.text, hsort, joinFields_eq_fieldsText]

theorem canonicalItems_eq_itemsText : ∀ (first : Bool) (vs : List Json),
    canonicalItems first vs = Json.itemsText first (Json.sortKeysItems vs)
  | _, [] => by rw [canonicalItems, Json.sortKeysItems, Json.itemsText]
  | first, v :: vs => by
    rw [canonicalItems, Json.sortKeysItems, Json.itemsText, canonicalJson_eq_text v,
      canonicalItems_eq_itemsText false vs]

theorem canonicalFields_eq_map : ∀ fs : List (String × Json),
    canonicalFields fs = (Json.sortKeysFields fs).map fun f => (f.1, Json.text f.2)
  | [] => by rw [canonicalFields, Json.sortKeysFields, List.map_nil]
  | (k, v) :: fs => by
    rw [canonicalFields, Json.sortKeysFields, List.map_cons, canonicalJson_eq_text v,
      canonicalFields_eq_map fs]

end

end Pkzz.Audit
