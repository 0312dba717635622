import Pkzz.Db.ThreadTables

/-!
# What the relay writes to `events` and `thread_metadata`

`insert_event_with_thread_metadata`, `insert_thread_metadata`, `soft_delete_event` and
`soft_delete_event_and_update_thread`, each one transaction: a function from the tables to the
tables, or an error that leaves them as they were.

`ON CONFLICT DO NOTHING` looks at the primary key, so at the timestamp too. The counter updates
look at community and event id only.
-/

namespace Pkzz.Db.Thread

open Pkzz.Core Pkzz.Lib

/-- An event of a community, whatever its timestamp. -/
abbrev Message := CommunityId × EventId

def EventsRow.message (row : EventsRow) : Message := (row.communityId, row.id)

def ThreadMetadataRow.message (row : ThreadMetadataRow) : Message := (row.communityId, row.eventId)

namespace Store

/-- A live `events` row. -/
def Live (s : Store) (m : Message) : Prop := ∃ row ∈ s.events, row.message = m ∧ row.deleted = false

instance (s : Store) (m : Message) : Decidable (s.Live m) :=
  inferInstanceAs (Decidable (∃ row ∈ s.events, row.message = m ∧ row.deleted = false))

/-- `INSERT INTO events … ON CONFLICT DO NOTHING`, and whether a row was inserted. -/
def insertEvent (s : Store) (row : EventsRow) (hkind : 0 ≤ row.kind ∧ row.kind < 65536) :
    Store × Bool :=
  if h : row.key ∈ s.events.map EventsRow.key then (s, false)
  else
    ({ s with
        events := row :: s.events
        events_pkey := List.nodup_cons.mpr ⟨h, s.events_pkey⟩
        kinds_u16 := List.forall_mem_cons.mpr ⟨hkind, s.kinds_u16⟩ }, true)

/-- `INSERT INTO thread_metadata … ON CONFLICT DO NOTHING`. -/
def insertMetadata (s : Store) (row : ThreadMetadataRow) : Store × Bool :=
  if h : row.key ∈ s.threadMetadata.map ThreadMetadataRow.key then (s, false)
  else
    ({ s with
        threadMetadata := row :: s.threadMetadata
        threadMetadata_pkey := List.nodup_cons.mpr ⟨h, s.threadMetadata_pkey⟩ }, true)

/-- `UPDATE thread_metadata … WHERE community_id = $1 AND event_id = $2`. -/
def updateMetadata (s : Store) (m : Message) (f : ThreadMetadataRow → ThreadMetadataRow)
    (hf : ∀ tm, (f tm).key = tm.key) : Store :=
  { s with
    threadMetadata := s.threadMetadata.map fun tm => if tm.message = m then f tm else tm
    threadMetadata_pkey := by
      have hkeys : (s.threadMetadata.map fun tm => if tm.message = m then
          f tm else tm).map ThreadMetadataRow.key = s.threadMetadata.map ThreadMetadataRow.key := by
        rw [List.map_map]
        refine List.map_congr_left fun tm _ => ?_
        show (if tm.message = m then f tm else tm).key = tm.key
        split
        · exact hf tm
        · rfl
      rw [hkeys]
      exact s.threadMetadata_pkey }

def maxI32 : Int := 2147483647

/-- `reply_count = reply_count + 1, last_reply_at = NOW()`. -/
def incrementReplyCount (s : Store) (m : Message) (now : Int) : Except DbError Store :=
  if ∃ tm ∈ s.threadMetadata, tm.message = m ∧ tm.replyCount = maxI32 then
    .error (.sqlx "integer out of range")
  else
    .ok (s.updateMetadata m
      (fun tm => { tm with replyCount := tm.replyCount + 1, lastReplyAt := some now }) fun _ => rfl)

/-- `descendant_count = descendant_count + 1`. -/
def incrementDescendantCount (s : Store) (m : Message) : Except DbError Store :=
  if ∃ tm ∈ s.threadMetadata, tm.message = m ∧ tm.descendantCount = maxI32 then
    .error (.sqlx "integer out of range")
  else .ok (s.updateMetadata m (fun tm =>
    { tm with descendantCount := tm.descendantCount + 1 }) fun _ => rfl)

/-- `reply_count = GREATEST(reply_count - 1, 0)`. -/
def decrementReplyCount (s : Store) (m : Message) : Store :=
  s.updateMetadata m (fun tm => { tm with replyCount := max (tm.replyCount - 1) 0 }) fun _ => rfl

/-- `descendant_count = GREATEST(descendant_count - 1, 0)`. -/
def decrementDescendantCount (s : Store) (m : Message) : Store :=
  s.updateMetadata m (fun tm =>
    { tm with descendantCount := max (tm.descendantCount - 1) 0 }) fun _ => rfl

end Store

/-! ## Inserting -/

structure ThreadMetadataParams where
  eventId : EventId
  eventCreatedAt : DateTime
  channelId : Uuid
  parentEventId : Option EventId
  parentEventCreatedAt : Option DateTime
  rootEventId : Option EventId
  rootEventCreatedAt : Option DateTime
  depth : Int
  broadcast : Bool
  deriving DecidableEq

namespace ThreadMetadataParams

variable (p : ThreadMetadataParams) (communityId : CommunityId)

def message : Message := (communityId, p.eventId)

/-- `parent_event_created_at.unwrap_or(event_created_at)`. -/
def parentTs : DateTime := p.parentEventCreatedAt.getD p.eventCreatedAt

/-- `root_event_created_at.unwrap_or(event_created_at)`. -/
def rootTs : DateTime := p.rootEventCreatedAt.getD p.eventCreatedAt

def row : ThreadMetadataRow :=
  { communityId, eventCreatedAt := p.eventCreatedAt, eventId := p.eventId, channelId := p.channelId
    parentEventId := p.parentEventId, parentEventCreatedAt := p.parentEventCreatedAt
    rootEventId := p.rootEventId, rootEventCreatedAt := p.rootEventCreatedAt
    depth := p.depth, replyCount := 0, descendantCount := 0, lastReplyAt := none, broadcast :=
      p.broadcast }

/-- The row made for a parent or a root that has none. -/
def stub (createdAt : DateTime) (eventId : EventId) : ThreadMetadataRow :=
  { communityId, eventCreatedAt := createdAt, eventId, channelId := p.channelId
    parentEventId := none, parentEventCreatedAt := none, rootEventId :=
      none, rootEventCreatedAt := none
    depth := 0, replyCount := 0, descendantCount := 0, lastReplyAt := none, broadcast := false }

end ThreadMetadataParams

/-- The stubs for the parent and for a root that is not the parent. -/
def ensureStubs (s : Store) (communityId : CommunityId) (p : ThreadMetadataParams)
    (parent : EventId) : Store :=
  let s := (s.insertMetadata (p.stub communityId p.parentTs parent)).1
  match p.rootEventId with
  | some root => if root ≠ parent then
      (s.insertMetadata (p.stub communityId p.rootTs root)).1 else s
  | none => s

/-- The counters of the parent and of the root. -/
def bumpCounters (s : Store) (communityId : CommunityId) (p : ThreadMetadataParams)
    (parent : EventId) (now : Int) : Except DbError Store :=
  match s.incrementReplyCount (communityId, parent) now with
  | .error e => .error e
  | .ok s =>
    match p.rootEventId with
    | some root => s.incrementDescendantCount (communityId, root)
    | none => .ok s

/-- The part `insert_thread_metadata` and `insert_event_with_thread_metadata` have in common:
the metadata row, and if it is new, stubs and counters. -/
def insertThreadMetadata (s : Store) (communityId : CommunityId) (p : ThreadMetadataParams)
    (now : Int) : Except DbError Store :=
  match s.insertMetadata (p.row communityId) with
  | (s, true) =>
    match p.parentEventId with
    | some parent => bumpCounters (ensureStubs s communityId p parent) communityId p parent now
    | none => .ok s
  | (s, false) => .ok s

def KIND_AUTH : Kind := 22242

def isEphemeral (kind : Kind) : Bool := 20000 ≤ kind && kind ≤ 29999

/-- `as_secs() as i64`. -/
def asI64 (secs : Timestamp) : Int := (BitVec.ofNat 64 secs).toInt

def tagsJson (tags : List Tag) : Json := .arr (tags.map fun tag => .arr (tag.buf.map .str))

def eventsRow (communityId : CommunityId) (ev : SignedEvent) (createdAt : DateTime)
    (channelId : Option Uuid) (receivedAt : Int) : EventsRow :=
  { communityId, id := ev.event.id, pubkey := ev.event.pubkey.bytes, createdAt,
    kind := ev.event.kind.toNat
    tags := tagsJson ev.event.tags, content := ev.content, sig :=
      ev.sig.bytes, receivedAt, channelId
    deleted := false }

theorem eventsRow_kind (communityId : CommunityId) (ev : SignedEvent) (createdAt : DateTime)
    (channelId : Option Uuid)
    (receivedAt : Int) : 0 ≤ (eventsRow communityId ev createdAt channelId receivedAt).kind
      ∧ (eventsRow communityId ev createdAt channelId receivedAt).kind < 65536 := by
  have hlt := UInt16.toNat_lt ev.event.kind
  constructor
  · exact Int.natCast_nonneg _
  · show (ev.event.kind.toNat : Int) < 65536
    omega

def insertEventWithThreadMetadata (s : Store) (communityId : CommunityId) (ev : SignedEvent)
    (channelId : Option Uuid)
    (threadMeta : Option ThreadMetadataParams) (now : Int) :
    Except DbError (Store × StoredEvent × Bool) :=
  if ev.event.kind = KIND_AUTH then .error .authEventRejected
  else if isEphemeral ev.event.kind then .error (.ephemeralEventRejected ev.event.kind)
  else
    match DateTime.fromTimestamp (asI64 ev.event.createdAt) with
    | none => .error (.invalidTimestamp (asI64 ev.event.createdAt))
    | some createdAt =>
      let stored : StoredEvent := ⟨ev, now, channelId, true⟩
      match s.insertEvent (eventsRow communityId ev createdAt channelId now)
          (eventsRow_kind ..) with
      | (s, true) =>
        match threadMeta with
        | some p => (insertThreadMetadata s communityId p now).map fun s => (s, stored, true)
        | none => .ok (s, stored, true)
      | (s, false) => .ok (s, stored, false)

/-! ## Deleting -/

/-- A soft-deleted row keeps its key. -/
def markDeleted (m : Message) (row : EventsRow) : EventsRow :=
    if row.message = m then { row with deleted := true } else row

/-- `soft_delete_event`: whether a live row was there. -/
def softDeleteEvent (s : Store) (communityId : CommunityId) (eventId : EventId) : Store × Bool :=
  ({ s with
      events := s.events.map (markDeleted (communityId, eventId))
      events_pkey := by
        have hkeys : (s.events.map (markDeleted (communityId, eventId))).map EventsRow.key =
            s.events.map EventsRow.key := by
          rw [List.map_map]
          refine List.map_congr_left fun row _ => ?_
          show (markDeleted (communityId, eventId) row).key = row.key
          rw [markDeleted]
          split <;> rfl
        rw [hkeys]
        exact s.events_pkey
      kinds_u16 := by
        intro row hrow
        obtain ⟨old, hold, rfl⟩ := List.mem_map.mp hrow
        rw [markDeleted]
        split <;> exact s.kinds_u16 old hold }, decide (s.Live (communityId, eventId)))

def softDeleteEventAndUpdateThread (s : Store) (communityId : CommunityId) (eventId : EventId)
    (parentEventId rootEventId : Option EventId) : Store × Bool :=
  match softDeleteEvent s communityId eventId with
  | (s, true) =>
    match parentEventId with
    | some parent =>
      let s := s.decrementReplyCount (communityId, parent)
      match rootEventId with
      | some root => (s.decrementDescendantCount (communityId, root), true)
      | none => (s, true)
    | none => (s, true)
  | (s, false) => (s, false)

end Pkzz.Db.Thread
