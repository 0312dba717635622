import Pkzz.Core.Filter
import Pkzz.Lib.Json

/-!
# The tables `events` and `thread_metadata`

The rows of the two tables and what is read out of them. A `created_at` is written from the
whole seconds of a Nostr timestamp. Both tables have the primary key (community,
`created_at`, id), and every writer takes `kind` from an event, whose kind is a `u16`.

`nostr::Event`'s deserializer is a parameter: it decides which rows can be decoded.
-/

namespace Pkzz.Db.Thread

open Pkzz.Core Pkzz.Lib

/-- A `DateTime<Utc>` on a whole second. -/
structure DateTime where
  secs : Int
  inRange : -8334601228800 ≤ secs ∧ secs ≤ 8210266876799
  deriving DecidableEq

namespace DateTime

/-- `DateTime::from_timestamp(secs, 0)`. -/
def fromTimestamp (secs : Int) : Option DateTime :=
  if h : -8334601228800 ≤ secs ∧ secs ≤ 8210266876799 then some ⟨secs, h⟩ else none

@[simp] theorem fromTimestamp_secs (t : DateTime) : fromTimestamp t.secs = some t := by
  rw [fromTimestamp, dif_pos t.inRange]

@[ext] theorem ext {s t : DateTime} (h : s.secs = t.secs) : s = t := by
  cases s
  cases t
  congr

end DateTime

/-- How `BYTEA` values compare: byte by byte. -/
def byteaKey (bytes : List UInt8) : List Nat := bytes.map UInt8.toNat

theorem byteaKey_inj {a b : List UInt8} (h : byteaKey a = byteaKey b) : a = b :=
  List.map_injective_iff.mpr (fun _ _ => UInt8.toNat_inj.mp) h

def byteaLt (a b : List UInt8) : Bool := decide (byteaKey a < byteaKey b)

/-- A primary key value. -/
structure RowKey where
  communityId : CommunityId
  createdAt : DateTime
  id : EventId
  deriving DecidableEq

/-- A row of `events`. -/
structure EventsRow where
  communityId : CommunityId
  id : EventId
  pubkey : List UInt8
  createdAt : DateTime
  kind : Int
  tags : Json
  content : String
  sig : List UInt8
  receivedAt : Int
  channelId : Option Uuid
  /-- `deleted_at` is set. -/
  deleted : Bool

def EventsRow.key (row : EventsRow) : RowKey := ⟨row.communityId, row.createdAt, row.id⟩

/-- A row of `thread_metadata`. -/
structure ThreadMetadataRow where
  communityId : CommunityId
  eventCreatedAt : DateTime
  eventId : EventId
  channelId : Uuid
  parentEventId : Option EventId
  parentEventCreatedAt : Option DateTime
  rootEventId : Option EventId
  rootEventCreatedAt : Option DateTime
  depth : Int
  replyCount : Int
  descendantCount : Int
  lastReplyAt : Option Int
  broadcast : Bool
  deriving DecidableEq

def ThreadMetadataRow.key (row : ThreadMetadataRow) : RowKey :=
  ⟨row.communityId, row.eventCreatedAt, row.eventId⟩

structure Store where
  events : List EventsRow
  threadMetadata : List ThreadMetadataRow
  events_pkey : (events.map EventsRow.key).Nodup
  threadMetadata_pkey : (threadMetadata.map ThreadMetadataRow.key).Nodup
  kinds_u16 : ∀ row ∈ events, 0 ≤ row.kind ∧ row.kind < 65536

namespace Store

/-- `JOIN events e ON` the primary key. -/
def eventOf (s : Store) (tm : ThreadMetadataRow) : Option EventsRow := s.events.find? fun e =>
    e.key = tm.key

/-- `LEFT JOIN thread_metadata tm ON` the primary key. -/
def metadataOf (s : Store) (e : EventsRow) : Option ThreadMetadataRow :=
  s.threadMetadata.find? fun tm => tm.key = e.key

theorem eventOf_some {s : Store} {tm : ThreadMetadataRow} {e : EventsRow}
    (h : s.eventOf tm = some e) : e ∈ s.events ∧ e.key = tm.key :=
  ⟨List.mem_of_find?_eq_some h, by simpa using List.find?_some h⟩

end Store

/-! ## `row_to_stored_event` -/

inductive DbError where
  | sqlx (message : String)
  | invalidData (message : String)
  | invalidTimestamp (secs : Int)
  | authEventRejected
  | ephemeralEventRejected (kind : Kind)
  deriving DecidableEq

/-- The object the row becomes before it is deserialized. -/
structure EventJson where
  id : String
  pubkey : String
  createdAt : Int
  kind : UInt16
  tags : Json
  content : String
  sig : String

structure SignedEvent where
  event : Event
  content : String
  sig : FixedBytes 64
  deriving DecidableEq

structure StoredEvent where
  signed : SignedEvent
  receivedAt : Int
  channelId : Option Uuid
  verified : Bool
  deriving DecidableEq

/-- `hex::encode`. -/
def hexEncode (bytes : List UInt8) : String := String.ofList (bytes.flatMap FixedBytes.hexByte)

/-- `row_to_stored_event`; a row that is no event is skipped, a kind that is no `u16` is an error.
-/
def rowToStoredEvent (deserialize : EventJson → Option SignedEvent) (row : EventsRow) :
    Except DbError (Option StoredEvent) :=
  if 0 ≤ row.kind ∧ row.kind < 65536 then
    let json : EventJson :=
      { id := hexEncode row.id.bytes
        pubkey := hexEncode row.pubkey
        createdAt := row.createdAt.secs
        kind := UInt16.ofNat row.kind.toNat
        tags := row.tags
        content := row.content
        sig := hexEncode row.sig }
    .ok ((deserialize json).map fun signed => ⟨signed, row.receivedAt, row.channelId, true⟩)
  else .error (.invalidData s!"kind out of u16 range: {row.kind}")

/-- What the loop over fetched rows keeps: `continue` on a row without event, `?` on an error. -/
def decodeRows {ρ β : Type} (decode : ρ → Except DbError (Option β)) : List ρ →
    Except DbError (List β)
  | [] => .ok []
  | row :: rows =>
    match decode row with
    | .error e => .error e
    | .ok none => decodeRows decode rows
    | .ok (some item) => (decodeRows decode rows).map (item :: ·)

/-- The item of a row, where decoding does not fail. -/
def decoded {ρ β : Type} (decode : ρ → Except DbError (Option β)) (row : ρ) : Option β :=
  match decode row with
  | .ok item => item
  | .error _ => none

theorem decodeRows_ok {ρ β : Type} {decode : ρ → Except DbError (Option β)} {rows : List ρ}
    (h : ∀ row ∈ rows, ∃ item, decode row = .ok item) :
    decodeRows decode rows = .ok (rows.filterMap (decoded decode)) := by
  induction rows with
  | nil => rfl
  | cons row rows ih =>
    have htail := ih fun r hr => h r (List.mem_cons_of_mem _ hr)
    obtain ⟨item, hitem⟩ := h row List.mem_cons_self
    rw [decodeRows, List.filterMap_cons]
    cases item with
    | none => simp [decoded, hitem, htail]
    | some item => simp [decoded, hitem, htail, Except.map]

theorem rowToStoredEvent_ok {deserialize : EventJson → Option SignedEvent} {row : EventsRow}
    (h : 0 ≤ row.kind ∧ row.kind < 65536) : ∃ se, rowToStoredEvent deserialize row = .ok se := by
  rw [rowToStoredEvent, if_pos h]
  exact ⟨_, rfl⟩

end Pkzz.Db.Thread
