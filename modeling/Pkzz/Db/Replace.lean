import Mathlib.Data.List.MinMax
import Pkzz.Db.ReplicaFence
import Pkzz.Db.ThreadPages
import Pkzz.Db.ThreadWrites
import Pkzz.Lib.Map
import Pkzz.Relay.CountQuery

/-!
# Replaceable events

`buzz-db`'s `replace_addressable_event`, `replace_parameterized_event` and
`soft_delete_by_coordinate`, with the triggers that run inside them. Superseded rows are retired
in one of three ways: they are kept with `deleted_at` set; or they are physically deleted, and a
watermark of the coordinate is left (NIP-RS read state); or they are physically deleted and
nothing is left (mesh status).

A call is one transaction. One that is rolled back leaves the tables as they were. The columns
of `events` that no predicate here reads, mentions and database failures are left out. The deferred
guard of migration 0021 has its say in COMMIT.
-/

namespace Pkzz.Db.Replace

open Pkzz.Core Pkzz.Lib
open Pkzz.Relay (extractDTag)
open Pkzz.Db.Thread (DateTime DbError asI64 byteaKey)

def KIND_READ_STATE : Nat := 30078
def KIND_BOOKMARK_SET : Nat := 30003

/-! ## Rows -/

/-- What rows of one key are ordered by. -/
structure Stamp where
  createdAt : DateTime
  id : EventId
  deriving DecidableEq

instance placeOrder : Preorder (Intᵒᵈ ×ₗ List Nat) :=
  (inferInstance : LinearOrder (Intᵒᵈ ×ₗ List Nat)).toPartialOrder.toPreorder

/-- `ORDER BY created_at DESC, id ASC`: the first row is the least one. -/
def Stamp.place (s : Stamp) : Intᵒᵈ ×ₗ List Nat :=
  toLex (OrderDual.toDual s.createdAt.secs, byteaKey s.id.bytes)

/-- The stale-write test of an incoming tuple against an accepted one. -/
def Stamp.dominatedBy (incoming accepted : Stamp) : Bool :=
  decide (incoming.createdAt.secs < accepted.createdAt.secs)
    || (decide (incoming.createdAt.secs = accepted.createdAt.secs)
      && decide (byteaKey accepted.id.bytes ≤ byteaKey incoming.id.bytes))

theorem dominatedBy_iff {incoming accepted : Stamp} :
    incoming.dominatedBy accepted = true ↔ accepted.place ≤ incoming.place := by
  rw [Stamp.place, Stamp.place, Prod.Lex.toLex_le_toLex, Stamp.dominatedBy]
  simp only [Bool.or_eq_true, Bool.and_eq_true, decide_eq_true_eq, OrderDual.toDual_lt_toDual,
    OrderDual.toDual_inj]
  rw [@eq_comm Int accepted.createdAt.secs]

theorem place_inj {s t : Stamp} (h : s.place = t.place) : s = t := by
  have hpair := Prod.ext_iff.mp (toLex.injective h)
  have hsecs : s.createdAt = t.createdAt := DateTime.ext (OrderDual.toDual_inj.mp hpair.1)
  have hid : s.id = t.id := FixedBytes.ext (Thread.byteaKey_inj hpair.2)
  cases s
  cases t
  simp_all

/-- A row of `events`. -/
structure Row where
  communityId : CommunityId
  id : EventId
  pubkey : PublicKey
  createdAt : DateTime
  kind : Kind
  tags : List Tag
  channelId : Option Uuid
  dTag : Option String
  /-- `deleted_at` is set. -/
  deleted : Bool
  deriving DecidableEq

namespace Row

def stamp (row : Row) : Stamp := ⟨row.createdAt, row.id⟩

/-- The primary key. -/
def key (row : Row) : CommunityId × Stamp := (row.communityId, row.stamp)

def place (row : Row) : Intᵒᵈ ×ₗ List Nat := row.stamp.place

def markDeleted (row : Row) : Row := { row with deleted := true }

/-- The guard of migration 0021 as the writer pool arms it. -/
def guardPasses (clock : Int) (row : Row) : Bool :=
  Db.guardPasses clock ⟨row.channelId, seconds row.createdAt.secs⟩

@[simp] theorem markDeleted_key (row : Row) : row.markDeleted.key = row.key := rfl
@[simp] theorem markDeleted_deleted (row : Row) : row.markDeleted.deleted = true := rfl

end Row

/-- What calls replace each other's rows. -/
inductive Key where
  | addressable (communityId : CommunityId) (kind : Kind) (pubkey : PublicKey)
      (channelId : Option Uuid)
  | parameterized (communityId : CommunityId) (kind : Kind) (pubkey : PublicKey) (dTag : String)
  deriving DecidableEq

/-- The WHERE clause of the key, but for `deleted_at`. -/
def Key.covers : Key → Row → Bool
  | .addressable communityId kind pubkey channelId, row =>
    row.communityId == communityId && row.kind == kind && row.pubkey == pubkey &&
      row.channelId == channelId
  | .parameterized communityId kind pubkey dTag, row =>
    row.communityId == communityId && row.kind == kind && row.pubkey == pubkey &&
      row.dTag == some dTag

@[simp] theorem covers_markDeleted (k : Key) (row : Row) :
    k.covers row.markDeleted = k.covers row := by
  cases k <;> rfl

/-- The primary key of `parameterized_event_watermarks`. -/
structure Coordinate where
  communityId : CommunityId
  kind : Kind
  pubkey : PublicKey
  dTag : String
  deriving DecidableEq

/-! ## Kinds with a retirement of their own -/

/-- `^read-state:[0-9a-f]{32}$`. -/
def isReadStateSlot (dTag : String) : Bool :=
  match Str.stripPrefix dTag "read-state:" with
  | some slot => slot.toList.length == 32 && slot.toList.all FixedBytes.isLowerHexdigit
  | none => false

/-- `is_nip_rs`, which the triggers of migration 0011 ask of a row in the same words. -/
def isNipRs (kind : Kind) (tags : List Tag) (dTag : String) : Bool :=
  let dTagCount := (tags.filter fun tag => tag.kind == "d").length
  let hasExactDTag := tags.any fun tag => tag.kind == "d" && tag.content == some dTag
  let readStateTTagCount := (tags.filter fun tag => tag.buf == ["t", "read-state"]).length
  kind.toNat == KIND_READ_STATE && dTagCount == 1 && hasExactDTag && isReadStateSlot dTag &&
    readStateTTagCount == 1

/-- `is_buzz_mesh_status`. -/
def isBuzzMeshStatus (kind : Kind) (tags : List Tag) (dTag : String) : Bool :=
  kind.toNat == KIND_BOOKMARK_SET && Str.startsWith dTag "buzz-mesh-member-status:"
    && tags.any fun tag => tag.buf == ["k", "buzz-mesh-status"]

namespace Row

/-- The rows `guard_nip_rs_watermark` and `purge_soft_deleted_nip_rs` act on. -/
def conforming (row : Row) : Bool := row.dTag.any (isNipRs row.kind row.tags)

/-- The rows `purge_soft_deleted_buzz_mesh_status` acts on: `tags @> '[["k", "buzz-mesh-status"]]'`
asks for a tag with both texts in it. -/
def meshStatus (row : Row) : Bool :=
  row.kind.toNat == KIND_BOOKMARK_SET && row.dTag.any (fun dTag =>
    Str.startsWith dTag "buzz-mesh-member-status:")
    && row.tags.any fun tag => tag.buf.contains "k" && tag.buf.contains "buzz-mesh-status"

/-- The rows `trg_events_guard_nip_rs_hard_delete` acts on. -/
def guarded (row : Row) : Bool := row.kind.toNat == KIND_READ_STATE && row.dTag.any isReadStateSlot

/-- A row that a soft delete removes. -/
def purged (row : Row) : Bool := row.conforming || row.meshStatus

end Row

/-! ## Statements -/

structure Tables where
  events : List Row
  watermarks : Map Coordinate Stamp
  events_pkey : (events.map Row.key).Nodup

namespace Tables

def empty : Tables := ⟨[], ∅, List.nodup_nil⟩

/-- What a soft delete leaves of a row: the `AFTER UPDATE` triggers purge some of them. -/
def softDeleteRow (hit : Row → Bool) (row : Row) : Option Row :=
  if hit row && !row.deleted then if row.purged then none else some row.markDeleted else some row

theorem softDeleteRow_key {hit : Row → Bool} {row row' : Row}
    (h : softDeleteRow hit row = some row') : row'.key = row.key := by
  rw [softDeleteRow] at h
  split at h
  · split at h
    · cases h
    · rw [← Option.some.inj h, Row.markDeleted_key]
  · rw [← Option.some.inj h]

theorem softDelete_pkey (hit : Row → Bool) :
    ∀ {events : List Row}, (events.map Row.key).Nodup →
      ((events.filterMap (softDeleteRow hit)).map Row.key).Nodup := by
  intro events h
  induction events with
  | nil => exact List.nodup_nil
  | cons row rows ih =>
    rw [List.map_cons, List.nodup_cons] at h
    rw [List.filterMap_cons]
    split
    · exact ih h.2
    rename_i row' hrow
    rw [List.map_cons, List.nodup_cons]
    refine ⟨?_, ih h.2⟩
    intro hmem
    obtain ⟨other', hother', hkey⟩ := List.mem_map.mp hmem
    obtain ⟨other, hother, hsoft⟩ := List.mem_filterMap.mp hother'
    refine h.1 (List.mem_map.mpr ⟨other, hother, ?_⟩)
    rw [← softDeleteRow_key hsoft, hkey, softDeleteRow_key hrow]

/-- `UPDATE events SET deleted_at = NOW() WHERE .. AND deleted_at IS NULL`. -/
def softDelete (t : Tables) (hit : Row → Bool) : Tables :=
  { t with
    events := t.events.filterMap (softDeleteRow hit)
    events_pkey := softDelete_pkey hit t.events_pkey }

/-- `DELETE FROM events WHERE .. AND deleted_at IS NULL`; `optIn` is `buzz.nip_rs_hard_delete`. -/
def hardDelete (t : Tables) (optIn : Bool) (hit : Row → Bool) : Except DbError Tables :=
  if t.events.any fun row => hit row && !row.deleted && row.guarded && !optIn then
    .error (.sqlx "NIP-RS hard delete requires corrected writer opt-in")
  else
    .ok { t with
      events := t.events.filter fun row => !(hit row && !row.deleted)
      events_pkey := List.Sublist.nodup
        (List.Sublist.map Row.key List.filter_sublist) t.events_pkey }

/-- `guard_nip_rs_watermark`: the watermarks, and whether the row is still to be inserted. -/
def guardNipRsWatermark (watermarks : Map Coordinate Stamp) (row : Row) :
    Except DbError (Map Coordinate Stamp × Bool) :=
  match row.dTag with
  | some dTag =>
    if isNipRs row.kind row.tags dTag then
      let coordinate : Coordinate := ⟨row.communityId, row.kind, row.pubkey, dTag⟩
      match Finmap.lookup coordinate watermarks with
      | none => .ok (Finmap.insert coordinate row.stamp watermarks, true)
      | some watermark =>
        if !row.stamp.dominatedBy watermark then
          .ok (Finmap.insert coordinate row.stamp watermarks, true)
        else if watermark = row.stamp then .ok (watermarks, false)
        else .error (.sqlx "stale NIP-RS event rejected by durable watermark")
    else .ok (watermarks, true)
  | none => .ok (watermarks, true)

/-- `INSERT INTO events .. ON CONFLICT DO NOTHING`, and whether a row was inserted. -/
def insertEvent (t : Tables) (row : Row) : Except DbError (Tables × Bool) :=
  match guardNipRsWatermark t.watermarks row with
  | .error e => .error e
  | .ok (watermarks, false) => .ok ({ t with watermarks }, false)
  | .ok (watermarks, true) =>
    if h : row.key ∈ t.events.map Row.key then .ok ({ t with watermarks }, false)
    else
      .ok ({ events := t.events ++ [row], watermarks
             events_pkey := by
               rw [List.map_append, List.map_singleton]
               exact t.events_pkey.append (List.nodup_singleton _)
                 (List.disjoint_singleton.mpr h) }, true)

/-- The live rows of a key. -/
def liveOf (t : Tables) (k : Key) : List Row := t.events.filter fun row =>
    k.covers row && !row.deleted

/-- The live row the incoming event is compared with. -/
def existing (t : Tables) (k : Key) : Option Row := (t.liveOf k).argmin Row.place

end Tables

/-! ## The calls -/

/-- `replace_addressable_event`: the tables after the call, and `was_inserted`. -/
def replaceAddressableEvent (t : Tables) (communityId : CommunityId) (event : Event)
    (channelId : Option Uuid) : Except DbError (Tables × Bool) :=
  match DateTime.fromTimestamp (asI64 event.createdAt) with
  | none => .error (.invalidTimestamp (asI64 event.createdAt))
  | some createdAt =>
    let k := Key.addressable communityId event.kind event.pubkey channelId
    let incoming : Stamp := ⟨createdAt, event.id⟩
    let dominated := (t.existing k).any fun row => incoming.dominatedBy row.stamp
    if dominated then .ok (t, false)
    else
      let row : Row :=
        {
          communityId, id := event.id, pubkey := event.pubkey, createdAt, kind := event.kind,
          tags := event.tags
          channelId, dTag := extractDTag event, deleted := false }
      match (t.softDelete k.covers).insertEvent row with
      | .error e => .error e
      -- `ON CONFLICT` fired: the soft delete is rolled back
      | .ok (_, false) => .ok (t, false)
      | .ok (t', true) => .ok (t', true)

/-- `replace_parameterized_event`. -/
def replaceParameterizedEvent (t : Tables) (communityId : CommunityId) (event : Event)
    (dTag : String) (channelId : Option Uuid) : Except DbError (Tables × Bool) :=
  match DateTime.fromTimestamp (asI64 event.createdAt) with
  | none => .error (.invalidTimestamp (asI64 event.createdAt))
  | some createdAt =>
    let k := Key.parameterized communityId event.kind event.pubkey dTag
    let coordinate : Coordinate := ⟨communityId, event.kind, event.pubkey, dTag⟩
    let nipRs := isNipRs event.kind event.tags dTag
    let hardDeleteSuperseded := nipRs || isBuzzMeshStatus event.kind event.tags dTag
    let existing := t.existing k
    let watermark := if nipRs then Finmap.lookup coordinate t.watermarks else none
    let incoming : Stamp := ⟨createdAt, event.id⟩
    let dominated := (existing.map Row.stamp).any incoming.dominatedBy ||
        watermark.any incoming.dominatedBy
    if dominated then .ok (t, false)
    else
      let retired :=
        if existing.isSome then
          if hardDeleteSuperseded then t.hardDelete nipRs k.covers else .ok (t.softDelete k.covers)
        else .ok t
      match retired with
      | .error e => .error e
      | .ok retired =>
        let row : Row :=
          {
            communityId, id := event.id, pubkey := event.pubkey, createdAt, kind := event.kind,
            tags := event.tags
            channelId, dTag := some dTag, deleted := false }
        match retired.insertEvent row with
        | .error e => .error e
        | .ok (_, false) => .ok (t, false)
        | .ok (t', true) =>
          if nipRs then .ok ({ t' with
            watermarks := Finmap.insert coordinate incoming t'.watermarks }, true)
          else .ok (t', true)

/-- `soft_delete_by_coordinate`, and whether a live row was deleted. -/
def softDeleteByCoordinate (t : Tables) (coordinate : Coordinate) (deletionCreatedAtSecs : Int) :
    Except DbError (Tables × Bool) :=
  match DateTime.fromTimestamp deletionCreatedAtSecs with
  | none => .error (.invalidTimestamp deletionCreatedAtSecs)
  | some deletionCreatedAt =>
    let k := Key.parameterized coordinate.communityId coordinate.kind coordinate.pubkey
        coordinate.dTag
    let hit := fun row : Row => k.covers row && decide (row.createdAt.secs ≤ deletionCreatedAt.secs)
    .ok (t.softDelete hit, t.events.any fun row => hit row && !row.deleted)

/-! ## What the statements do to the rows of a key -/

namespace Tables

variable {t : Tables} {k : Key} {hit : Row → Bool} {row : Row}

theorem ext {s t : Tables} (he : s.events = t.events)
    (hw : s.watermarks = t.watermarks) : s = t := by
  cases s
  cases t
  congr

theorem mem_liveOf : row ∈ t.liveOf k ↔ row ∈ t.events ∧ k.covers row = true ∧
    row.deleted = false := by
  rw [liveOf, List.mem_filter, Bool.and_eq_true, Bool.not_eq_true']

/-- What is live after a soft delete was live and not hit. -/
theorem liveOf_softDelete (t : Tables) (k : Key) (hit : Row → Bool) :
    (t.softDelete hit).liveOf k = (t.liveOf k).filter fun row => !hit row := by
  rw [liveOf, liveOf, List.filter_filter]
  show ((t.events.filterMap (softDeleteRow hit)).filter fun row => k.covers row && !row.deleted) = _
  induction t.events with
  | nil => rfl
  | cons row rows ih =>
    rw [List.filterMap_cons, List.filter_cons, ← ih, softDeleteRow]
    by_cases hhit : hit row = true
    · by_cases hdel : row.deleted = true
      · simp [hhit, hdel]
      · by_cases hpurged : row.purged = true
        · simp [hhit, hdel, hpurged]
        · simp [hhit, hdel, hpurged]
    · simp only [hhit, Bool.false_and, Bool.false_eq_true, if_false, List.filter_cons,
        Bool.not_false, Bool.true_and]

/-- The tables without the live rows that are hit. -/
def remove (t : Tables) (hit : Row → Bool) : Tables :=
  { t with
    events := t.events.filter fun row => !(hit row && !row.deleted)
    events_pkey := List.Sublist.nodup (List.Sublist.map Row.key List.filter_sublist) t.events_pkey }

theorem liveOf_remove (t : Tables) (k : Key) (hit : Row → Bool) :
    (t.remove hit).liveOf k = (t.liveOf k).filter fun row => !hit row := by
  rw [liveOf, liveOf, remove, List.filter_filter, List.filter_filter]
  refine List.filter_congr ?_
  intro row _
  cases hit row <;> cases row.deleted <;> cases k.covers row <;> rfl

theorem existing_eq_none : t.existing k = none ↔ t.liveOf k = [] := List.argmin_eq_none

/-- Where nothing is live nothing is deleted. -/
theorem softDelete_of_liveOf_nil (h : t.liveOf k = []) : t.softDelete k.covers = t := by
  refine ext ?_ rfl
  have hrow : ∀ row ∈ t.events, softDeleteRow k.covers row = some row := by
    intro row hrow
    have hout := List.filter_eq_nil_iff.mp h row hrow
    rw [softDeleteRow, if_neg hout]
  show t.events.filterMap (softDeleteRow k.covers) = t.events
  rw [List.filterMap_congr hrow, List.filterMap_some]

theorem remove_of_liveOf_nil (h : t.liveOf k = []) : t.remove k.covers = t := by
  refine ext ?_ rfl
  refine List.filter_eq_self.mpr ?_
  intro row hrow
  have hout := List.filter_eq_nil_iff.mp h row hrow
  rw [Bool.not_eq_true', Bool.eq_false_iff]
  exact hout

theorem hardDelete_eq {optIn : Bool}
    (h : ∀ row ∈ t.events, hit row = true → row.guarded = true → optIn = true) :
    t.hardDelete optIn hit = .ok (t.remove hit) := by
  rw [hardDelete, if_neg]
  · rfl
  · intro hany
    obtain ⟨row, hrow, hbad⟩ := List.any_eq_true.mp hany
    simp only [Bool.and_eq_true, Bool.not_eq_true'] at hbad
    rw [h row hrow hbad.1.1.1 hbad.1.2] at hbad
    exact Bool.noConfusion hbad.2

end Tables

/-! ## Calls -/

/-- A call of one of the two functions. -/
inductive Call where
  | addressable (communityId : CommunityId) (event : Event) (channelId : Option Uuid)
  | parameterized (communityId : CommunityId) (event : Event) (dTag : String)
      (channelId : Option Uuid)
  deriving DecidableEq

namespace Call

def communityId : Call → CommunityId
  | addressable communityId _ _ => communityId
  | parameterized communityId _ _ _ => communityId

def event : Call → Event
  | addressable _ event _ => event
  | parameterized _ event _ _ => event

def channelId : Call → Option Uuid
  | addressable _ _ channelId => channelId
  | parameterized _ _ _ channelId => channelId

/-- The `d_tag` column of the row. -/
def dTag : Call → Option String
  | addressable _ event _ => extractDTag event
  | parameterized _ _ dTag _ => some dTag

def key : Call → Key
  | addressable communityId event channelId =>
      .addressable communityId event.kind event.pubkey channelId
  | parameterized communityId event dTag _ =>
      .parameterized communityId event.kind event.pubkey dTag

/-- The row the call inserts. -/
def rowAt (c : Call) (createdAt : DateTime) : Row :=
  { communityId := c.communityId, id := c.event.id, pubkey := c.event.pubkey, createdAt,
    kind := c.event.kind
    tags := c.event.tags, channelId := c.channelId, dTag := c.dTag, deleted := false }

/-- An event whose time is no `DateTime` has no row. -/
def row (c : Call) : Option Row := (DateTime.fromTimestamp (asI64 c.event.createdAt)).map c.rowAt

/-- Whether the call deletes the rows it supersedes physically. -/
def hardDeleteSuperseded : Call → Bool
  | addressable _ _ _ => false
  | parameterized _ event dTag _ =>
      isNipRs event.kind event.tags dTag || isBuzzMeshStatus event.kind event.tags dTag

/-- The call up to its COMMIT. -/
def apply (t : Tables) : Call → Except DbError (Tables × Bool)
  | addressable communityId event channelId => replaceAddressableEvent t communityId event channelId
  | parameterized communityId event dTag channelId =>
      replaceParameterizedEvent t communityId event dTag channelId

/-- The call on the pool of `Db::new`, where COMMIT runs `events_created_at_floor_guard` on the
inserted row at the reading `clock` of `clock_timestamp()`. -/
def commit (t : Tables) (clock : Int) (c : Call) : Except DbError (Tables × Bool) :=
  match c.apply t with
  | .ok (t', true) =>
    if c.row.all (Row.guardPasses clock) then .ok (t', true)
    else .error (.sqlx "events.created_at is below the replica-fence floor")
  | outcome => outcome

theorem covers_row {c : Call} {row : Row} (h : c.row = some row) : c.key.covers row = true := by
  obtain ⟨createdAt, _, rfl⟩ := Option.map_eq_some_iff.mp h
  cases c <;> simp [key, Key.covers, rowAt, communityId, event, channelId, dTag]

theorem row_live {c : Call} {row : Row} (h : c.row = some row) : row.deleted = false := by
  obtain ⟨createdAt, _, rfl⟩ := Option.map_eq_some_iff.mp h
  rfl

end Call

/-- The documented domain of `replace_addressable_event`: the NIP-16 kinds and the discovery state
of NIP-29. -/
def isAddressableKind (kind : Kind) : Bool :=
  kind == 0 || kind == 3 || kind == 41 || (10000 ≤ kind && kind ≤ 19999) ||
    (39000 ≤ kind && kind ≤ 39002)

/-- A call of the function its kind belongs to. -/
def Call.Routed : Call → Prop
  | addressable _ event _ => isAddressableKind event.kind = true
  | parameterized _ event _ _ => isAddressableKind event.kind = false

/-! ## What a call does -/

namespace Tables

/-- The watermark a row is held against. -/
def watermarkOf (t : Tables) (row : Row) : Option Stamp :=
  match row.dTag with
  | some dTag =>
    if isNipRs row.kind row.tags dTag then
      Finmap.lookup ⟨row.communityId, row.kind, row.pubkey, dTag⟩ t.watermarks
    else none
  | none => none

/-- The watermarks with that of the row moved to it. -/
def advance (watermarks : Map Coordinate Stamp) (row : Row) : Map Coordinate Stamp :=
  match row.dTag with
  | some dTag =>
    if isNipRs row.kind row.tags dTag then
      Finmap.insert ⟨row.communityId, row.kind, row.pubkey, dTag⟩ row.stamp watermarks
    else watermarks
  | none => watermarks

/-- The tables with one more row. -/
def accept (t : Tables) (row : Row) (h : row.key ∉ t.events.map Row.key) : Tables where
  events := t.events ++ [row]
  watermarks := advance t.watermarks row
  events_pkey := by
    rw [List.map_append, List.map_singleton]
    exact t.events_pkey.append (List.nodup_singleton _) (List.disjoint_singleton.mpr h)

/-- What a call makes of the rows it supersedes. -/
def retire (t : Tables) (c : Call) : Tables :=
  if c.hardDeleteSuperseded then t.remove c.key.covers else t.softDelete c.key.covers

/-- Whether the live row or the watermark stands against a row. -/
def dominates (t : Tables) (k : Key) (row : Row) : Bool :=
  ((t.existing k).map Row.stamp).any row.stamp.dominatedBy ||
    (t.watermarkOf row).any row.stamp.dominatedBy

theorem guardNipRsWatermark_eq {t : Tables} {row : Row}
    (h : (t.watermarkOf row).any row.stamp.dominatedBy = false) :
    guardNipRsWatermark t.watermarks row = .ok (advance t.watermarks row, true) := by
  rw [watermarkOf] at h
  rw [guardNipRsWatermark, advance]
  cases hd : row.dTag with
  | none => rfl
  | some dTag =>
    simp only [hd] at h ⊢
    by_cases hnip : isNipRs row.kind row.tags dTag = true
    · rw [if_pos hnip] at h ⊢
      cases hw : Finmap.lookup (⟨row.communityId, row.kind, row.pubkey,
        dTag⟩ : Coordinate) t.watermarks with
      | none => simp [hnip]
      | some watermark =>
        rw [hw, Option.any_some] at h
        simp [hnip, h]
    · rw [if_neg hnip, if_neg hnip]

/-- An insert that no watermark stands against, up to a conflict. -/
theorem insertEvent_eq {t : Tables} {row : Row}
    (h : (t.watermarkOf row).any row.stamp.dominatedBy = false) : t.insertEvent row =
      if hkey : row.key ∈ t.events.map Row.key then
        .ok ({ t with watermarks := advance t.watermarks row }, false)
      else .ok (t.accept row hkey, true) := by
  rw [insertEvent, guardNipRsWatermark_eq h]
  dsimp only
  split <;> rfl

end Tables

/-- What became of the insert that ends a call. -/
def Call.finish (t : Tables) (c : Call) (row : Row) : Except DbError (Tables × Bool) :=
  if h : row.key ∈ (t.retire c).events.map Row.key then
    .ok (t, false) else .ok ((t.retire c).accept row h, true)

variable {dTag : String}

theorem kind_of_isNipRs {kind : Kind} {tags : List Tag} (h : isNipRs kind tags dTag = true) :
    kind.toNat = KIND_READ_STATE := by
  simp only [isNipRs, Bool.and_eq_true, beq_iff_eq] at h
  exact h.1.1.1.1

theorem kind_of_isBuzzMeshStatus {kind : Kind} {tags : List Tag}
    (h : isBuzzMeshStatus kind tags dTag = true) : kind.toNat = KIND_BOOKMARK_SET := by
  simp only [isBuzzMeshStatus, Bool.and_eq_true, beq_iff_eq] at h
  exact h.1.1

theorem kind_of_covers {communityId : CommunityId} {kind : Kind} {pubkey : PublicKey} {row : Row}
    (h : (Key.parameterized communityId kind pubkey dTag).covers row = true) : row.kind = kind := by
  simp only [Key.covers, Bool.and_eq_true, beq_iff_eq] at h
  exact h.1.1.2

/-- The guard of migration 0011 lets every delete of `replace_parameterized_event` pass. -/
theorem hardDelete_parameterized {t : Tables} {communityId : CommunityId} {event : Event}
    (h : (isNipRs event.kind event.tags dTag || isBuzzMeshStatus event.kind event.tags dTag) =
      true) :
    t.hardDelete (isNipRs event.kind event.tags dTag)
      (Key.parameterized communityId event.kind event.pubkey dTag).covers
      = .ok (t.remove (Key.parameterized communityId event.kind event.pubkey dTag).covers) := by
  refine Tables.hardDelete_eq ?_
  intro row _ hcov hguard
  rcases (Bool.or_eq_true _ _).mp h with hnip | hmesh
  · exact hnip
  -- a row at a mesh coordinate is of another kind than the guarded ones
  have hkind := kind_of_covers hcov
  rw [Row.guarded, Bool.and_eq_true, beq_iff_eq, hkind, kind_of_isBuzzMeshStatus hmesh] at hguard
  exact absurd hguard.1 (by decide)

namespace Tables

theorem retire_watermarks (t : Tables) (c : Call) : (t.retire c).watermarks = t.watermarks := by
  rw [retire]
  split <;> rfl

theorem watermarkOf_retire (t : Tables) (c : Call) (row : Row) :
    (t.retire c).watermarkOf row = t.watermarkOf row := by
  rw [watermarkOf, watermarkOf, retire_watermarks]

/-- A live row that is looked for first is one of the rows retired. -/
theorem retire_of_existing_none {t : Tables} {c : Call} (h : t.existing c.key = none) :
    t.retire c = t := by
  have hnil := existing_eq_none.mp h
  rw [retire]
  split
  · exact remove_of_liveOf_nil hnil
  · exact softDelete_of_liveOf_nil hnil

end Tables

/-- The insert that ends a call of either function. -/
theorem insertEvent_retire {t : Tables} {c : Call} {row : Row} (h : t.dominates c.key row = false) :
    (t.retire c).insertEvent row =
      if hkey : row.key ∈ (t.retire c).events.map Row.key then
        .ok ({ t.retire c with watermarks := Tables.advance (t.retire c).watermarks row }, false)
      else .ok ((t.retire c).accept row hkey, true) := by
  refine Tables.insertEvent_eq ?_
  rw [Tables.watermarkOf_retire]
  exact (Bool.or_eq_false_iff.mp h).2

/-- The rows `replace_parameterized_event` supersedes are retired, whether one was found or not. -/
theorem retired_parameterized (t : Tables) (communityId : CommunityId) (event : Event)
    (dTag : String) (channelId : Option Uuid) :
    (if (t.existing (.parameterized communityId event.kind event.pubkey dTag)).isSome then
        if isNipRs event.kind event.tags dTag || isBuzzMeshStatus event.kind event.tags dTag then
          t.hardDelete (isNipRs event.kind event.tags dTag)
            (Key.parameterized communityId event.kind event.pubkey dTag).covers
        else .ok (t.softDelete (Key.parameterized communityId event.kind event.pubkey dTag).covers)
      else .ok t : Except DbError Tables) =
        .ok (t.retire (.parameterized communityId event dTag channelId)) := by
  split
  · rw [Tables.retire]
    by_cases hhard : (isNipRs event.kind event.tags dTag ||
      isBuzzMeshStatus event.kind event.tags dTag) = true
    · rw [if_pos hhard, hardDelete_parameterized hhard]
      exact congrArg Except.ok (if_pos hhard).symm
    · rw [if_neg hhard]
      exact congrArg Except.ok (if_neg hhard).symm
  · rename_i hnone
    have hex : t.existing (Call.parameterized communityId event dTag channelId).key = none :=
      Option.not_isSome_iff_eq_none.mp hnone
    rw [Tables.retire_of_existing_none hex]

/-- The watermark the trigger moves is the one the call writes. -/
theorem accept_upsert {t : Tables} {row : Row} {h : row.key ∉ t.events.map Row.key}
    (hd : row.dTag = some dTag) (hnip : isNipRs row.kind row.tags dTag = true) :
    Finmap.insert (⟨row.communityId, row.kind, row.pubkey, dTag⟩ : Coordinate) row.stamp
      (t.accept row h).watermarks = (t.accept row h).watermarks := by
  rw [Tables.accept, Tables.advance, hd]
  dsimp only
  rw [if_pos hnip, Finmap.insert_insert]

/-- **What `replace_parameterized_event` does.** -/
theorem replaceParameterizedEvent_eq (t : Tables) (communityId : CommunityId) (event : Event)
    (dTag : String) (channelId : Option Uuid) :
    replaceParameterizedEvent t communityId event dTag channelId =
      match DateTime.fromTimestamp (asI64 event.createdAt) with
      | none => .error (.invalidTimestamp (asI64 event.createdAt))
      | some createdAt =>
        let c := Call.parameterized communityId event dTag channelId
        if t.dominates c.key (c.rowAt createdAt) then
          .ok (t, false) else c.finish t (c.rowAt createdAt) := by
  rw [replaceParameterizedEvent]
  cases hts : DateTime.fromTimestamp (asI64 event.createdAt) with
  | none => rfl
  | some createdAt =>
    dsimp only
    by_cases hdom : t.dominates (Call.parameterized communityId event dTag channelId).key
        ((Call.parameterized communityId event dTag channelId).rowAt createdAt) = true
    · rw [if_pos hdom]
      exact if_pos hdom
    · rw [if_neg hdom]
      refine (if_neg hdom).trans ?_
      rw [retired_parameterized t communityId event dTag channelId]
      dsimp only
      have hrow : ({
            communityId, id := event.id, pubkey := event.pubkey, createdAt, kind := event.kind
            tags := event.tags, channelId, dTag := some dTag, deleted := false } : Row)
            = (Call.parameterized communityId event dTag channelId).rowAt createdAt := rfl
      rw [hrow, insertEvent_retire (Bool.eq_false_iff.mpr hdom), Call.finish]
      by_cases hkey : ((Call.parameterized communityId event dTag channelId).rowAt createdAt).key
          ∈ (t.retire (Call.parameterized communityId event dTag channelId)).events.map Row.key
      · rw [dif_pos hkey, dif_pos hkey]
      · rw [dif_neg hkey, dif_neg hkey]
        dsimp only
        split
        · rename_i hnip
          refine congrArg (fun t' => Except.ok (t', true)) (Tables.ext rfl ?_)
          exact accept_upsert rfl hnip
        · rfl

/-! ### `replace_addressable_event` -/

theorem not_conforming_of_addressable {event : Event} (h : isAddressableKind event.kind = true)
    (tags : List Tag) (dTag : String) : isNipRs event.kind tags dTag = false := by
  rw [Bool.eq_false_iff]
  intro hnip
  have hkind : event.kind = 30078 := UInt16.toNat_inj.mp (kind_of_isNipRs hnip)
  rw [hkind] at h
  exact absurd h (by decide)

/-- **What `replace_addressable_event` does**, for the kinds it is for. -/
theorem replaceAddressableEvent_eq (t : Tables) (communityId : CommunityId) {event : Event}
    (channelId : Option Uuid) (hkind : isAddressableKind event.kind = true) :
    replaceAddressableEvent t communityId event channelId =
      match DateTime.fromTimestamp (asI64 event.createdAt) with
      | none => .error (.invalidTimestamp (asI64 event.createdAt))
      | some createdAt =>
        let c := Call.addressable communityId event channelId
        if t.dominates c.key (c.rowAt createdAt) then
          .ok (t, false) else c.finish t (c.rowAt createdAt) := by
  rw [replaceAddressableEvent]
  cases hts : DateTime.fromTimestamp (asI64 event.createdAt) with
  | none => rfl
  | some createdAt =>
    dsimp only
    have hmark : t.watermarkOf ((Call.addressable communityId event channelId).rowAt createdAt) =
        none := by
      rw [Tables.watermarkOf]
      split
      · exact if_neg (Bool.eq_false_iff.mp (not_conforming_of_addressable hkind _ _))
      · rfl
    have hdom : t.dominates (Call.addressable communityId event channelId).key
          ((Call.addressable communityId event channelId).rowAt createdAt)
        = (t.existing (.addressable communityId event.kind event.pubkey channelId)).any
            fun row => (⟨createdAt, event.id⟩ : Stamp).dominatedBy row.stamp := by
      rw [Tables.dominates, hmark, Option.any_map]
      exact Bool.or_false _
    rw [← hdom]
    split
    · rfl
    rename_i hfalse
    have hrow : ({
          communityId, id := event.id, pubkey := event.pubkey, createdAt, kind := event.kind
          tags := event.tags, channelId, dTag := extractDTag event, deleted := false } : Row)
          = (Call.addressable communityId event channelId).rowAt createdAt := rfl
    have hretire : t.softDelete
        (Key.addressable communityId event.kind event.pubkey channelId).covers
        = t.retire (.addressable communityId event channelId) := rfl
    rw [hrow, hretire, insertEvent_retire (Bool.eq_false_iff.mpr hfalse), Call.finish]
    by_cases hkey : ((Call.addressable communityId event channelId).rowAt createdAt).key
        ∈ (t.retire (Call.addressable communityId event channelId)).events.map Row.key
    · rw [dif_pos hkey, dif_pos hkey]
    · rw [dif_neg hkey, dif_neg hkey]

/-! ### Both -/

/-- **A call that has a row is refused, or it inserts the row.** -/
theorem Call.apply_of_row {t : Tables} {c : Call} {row : Row} (hc : c.Routed)
    (h : c.row = some row) :
    c.apply t = if t.dominates c.key row then .ok (t, false) else c.finish t row := by
  obtain ⟨createdAt, hts, rfl⟩ := Option.map_eq_some_iff.mp h
  cases c with
  | addressable communityId event channelId =>
    rw [apply, replaceAddressableEvent_eq t communityId channelId hc]
    dsimp only [Call.event] at hts
    rw [hts]
  | parameterized communityId event dTag channelId =>
    rw [apply, replaceParameterizedEvent_eq]
    dsimp only [Call.event] at hts
    rw [hts]

/-- A call that has none fails. -/
theorem Call.apply_of_row_none {t : Tables} {c : Call} (hc : c.Routed) (h : c.row = none) :
    c.apply t = .error (.invalidTimestamp (asI64 c.event.createdAt)) := by
  have hts := Option.map_eq_none_iff.mp h
  cases c with
  | addressable communityId event channelId =>
    rw [apply, replaceAddressableEvent_eq t communityId channelId hc]
    dsimp only [Call.event] at hts ⊢
    rw [hts]
  | parameterized communityId event dTag channelId =>
    rw [apply, replaceParameterizedEvent_eq]
    dsimp only [Call.event] at hts ⊢
    rw [hts]

end Pkzz.Db.Replace
