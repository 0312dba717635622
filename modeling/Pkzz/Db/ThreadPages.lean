import Mathlib.Data.List.Lex
import Mathlib.Data.Prod.Lex
import Pkzz.Db.ThreadTables
import Pkzz.Lib.Keyset

/-!
# Pages of a channel and of a thread

`get_channel_window_on` and `get_thread_replies_on` as functions of the store. A window is read
in (`created_at` descending, id ascending) order with one row more than the page holds, and
its next cursor is taken from the fetched rows before they are decoded. A page of replies is
read in ascending order and comes without a cursor.

The participants of a thread summary are a query of their own and are left out.
-/

namespace Pkzz.Db.Thread

open Pkzz.Core Pkzz.Lib

/-- `n as i32`. -/
def asI32 (n : UInt32) : Int := n.toBitVec.toInt

theorem asI32_nonneg_iff {n : UInt32} : 0 ≤ asI32 n ↔ n.toNat < 2 ^ 31 := by
  have hn : n.toBitVec.toNat = n.toNat := rfl
  have hlt := UInt32.toNat_lt n
  rw [asI32, BitVec.toInt_eq_toNat_cond, hn]
  split <;> omega

theorem asI32_toNat {n : UInt32} (h : n.toNat < 2 ^ 31) : (asI32 n).toNat = n.toNat := by
  have hn : n.toBitVec.toNat = n.toNat := rfl
  rw [asI32, BitVec.toInt_eq_toNat_cond, hn, if_pos (by omega), Int.toNat_natCast]

/-! ## `get_channel_window_on` -/

section Window

variable (deserialize : EventJson → Option SignedEvent) (s : Store) (communityId : CommunityId)
  (channelId : Uuid) (limit : UInt32) (kindFilter : Option (List UInt32))

structure ThreadSummary where
  replyCount : Int
  descendantCount : Int
  lastReplyAt : Option Int
  deriving DecidableEq

structure ChannelWindowRow where
  storedEvent : StoredEvent
  threadSummary : Option ThreadSummary
  deriving DecidableEq

abbrev WindowCursor := DateTime × List UInt8

structure ChannelWindow where
  rows : List ChannelWindowRow
  hasMore : Bool
  nextCursor : Option WindowCursor
  deriving DecidableEq

/-- `depth` is null, zero, or one on a broadcast reply. -/
def isTopLevel : Option ThreadMetadataRow → Bool
  | none => true
  | some tm => tm.depth == 0 || (tm.depth == 1 && tm.broadcast)

/-- `e.kind IN (…)`, which an empty list leaves out. -/
def ofKinds (row : EventsRow) : Bool :=
  match kindFilter with
  | none => true
  | some kinds => kinds.isEmpty || kinds.any fun k => (k.toNat : Int) == row.kind

/-- The live top-level events of the channel, of the kinds asked for. -/
def Store.topLevelEvents : List EventsRow :=
  s.events.filter fun e =>
    decide (e.communityId = communityId) && decide (e.channelId = some channelId) && !e.deleted
      && isTopLevel (s.metadataOf e) && ofKinds kindFilter e

def afterWindowCursor (cursor : Option WindowCursor) (e : EventsRow) : Bool :=
  match cursor with
  | none => true
  | some (ts, id) => decide (e.createdAt.secs < ts.secs) ||
      (decide (e.createdAt = ts) && byteaLt id e.id.bytes)

/-- `ORDER BY e.created_at DESC, e.id ASC`. -/
def windowKey (e : EventsRow) : Intᵒᵈ ×ₗ List Nat :=
  toLex (OrderDual.toDual e.createdAt.secs, byteaKey e.id.bytes)

def fetchWindow (cursor : Option WindowCursor) (limit : Nat) : List EventsRow :=
  (Keyset.ordered windowKey
    ((s.topLevelEvents communityId channelId kindFilter).filter
      (afterWindowCursor cursor))).take limit

/-- What a fetched row becomes. -/
def toWindowRow (e : EventsRow) : Except DbError (Option ChannelWindowRow) :=
  (rowToStoredEvent deserialize e).map (Option.map fun storedEvent =>
    { storedEvent
      threadSummary := (s.metadataOf e).bind fun tm =>
        if tm.replyCount > 0 then
          some ⟨tm.replyCount, tm.descendantCount, tm.lastReplyAt⟩ else none })

def windowCursor (e : EventsRow) : WindowCursor := (e.createdAt, e.id.bytes)

def getChannelWindow (cursor : Option WindowCursor) : Except DbError ChannelWindow :=
  let fetched := fetchWindow s communityId channelId kindFilter cursor (limit.toNat + 1)
  let hasMore := decide (fetched.length > limit.toNat)
  let dbRows := fetched.take limit.toNat
  let nextCursor := if hasMore then dbRows.getLast?.map windowCursor else none
  (decodeRows (toWindowRow deserialize s) dbRows).map fun rows => { rows, hasMore, nextCursor }

variable {deserialize s communityId channelId limit kindFilter}

theorem exists_toWindowRow {e : EventsRow} (h : e ∈ s.events) :
    ∃ item, toWindowRow deserialize s e = .ok item := by
  obtain ⟨se, hse⟩ := @rowToStoredEvent_ok deserialize e (s.kinds_u16 e h)
  rw [toWindowRow, hse]
  exact ⟨_, rfl⟩

theorem windowKey_lt_iff {a b : EventsRow} :
    windowKey a < windowKey b ↔ b.createdAt.secs < a.createdAt.secs
      ∨ (b.createdAt = a.createdAt ∧ byteaKey a.id.bytes < byteaKey b.id.bytes) := by
  rw [windowKey, windowKey, Prod.Lex.toLex_lt_toLex]
  simp only [OrderDual.toDual_lt_toDual, OrderDual.toDual_inj]
  have hsecs : a.createdAt.secs = b.createdAt.secs ↔ b.createdAt = a.createdAt :=
    ⟨fun h => DateTime.ext h.symm, fun h => by rw [h]⟩
  rw [hsecs]

theorem afterWindowCursor_row (a b : EventsRow) :
    afterWindowCursor (some (windowCursor a)) b = decide (windowKey a < windowKey b) := by
  rw [afterWindowCursor, windowCursor, Bool.eq_iff_iff]
  simp [byteaLt, windowKey_lt_iff]

/-- The events selected have different keys, being rows of one community. -/
theorem topLevelEvents_keys :
    ((s.topLevelEvents communityId channelId kindFilter).map windowKey).Nodup := by
  refine List.Nodup.map_on ?_ (List.Nodup.filter _ (List.Nodup.of_map _ s.events_pkey))
  intro a ha b hb hkey
  obtain ⟨ha, hwa⟩ := List.mem_filter.mp ha
  obtain ⟨hb, hwb⟩ := List.mem_filter.mp hb
  simp only [Bool.and_eq_true, decide_eq_true_eq] at hwa hwb
  have hpair := Prod.ext_iff.mp (toLex.injective hkey)
  have hrow : a.key = b.key := by
    have hsecs : a.createdAt = b.createdAt := DateTime.ext (OrderDual.toDual_inj.mp hpair.1)
    have hid : a.id = b.id := FixedBytes.ext (byteaKey_inj hpair.2)
    rw [EventsRow.key, EventsRow.key, hsecs, hid, hwa.1.1.1.1, hwb.1.1.1.1]
  exact List.inj_on_of_nodup_map s.events_pkey ha hb hrow

/-- The events in the order of the pages. -/
def Store.windowEvents (s : Store) (communityId : CommunityId) (channelId : Uuid)
    (kindFilter : Option (List UInt32)) : List EventsRow :=
  Keyset.ordered windowKey (s.topLevelEvents communityId channelId kindFilter)

/-- What one window holds, and where it ends. -/
theorem getChannelWindow_page {cursor : Option WindowCursor} {rest : List EventsRow}
    (h : Keyset.Remaining windowCursor
      (s.windowEvents communityId channelId kindFilter) cursor rest) :
    getChannelWindow deserialize s communityId channelId limit kindFilter cursor
      = .ok { rows := (rest.take limit.toNat).filterMap (decoded (toWindowRow deserialize s))
              hasMore := decide (limit.toNat < rest.length)
              nextCursor := if limit.toNat < rest.length then
                (rest.take limit.toNat).getLast?.map windowCursor else none } := by
  have hkeys := @topLevelEvents_keys s communityId channelId kindFilter
  have hstrict := Keyset.ordered_strict hkeys
  have hrest : (s.windowEvents communityId channelId kindFilter).filter (afterWindowCursor cursor) =
      rest := by
    cases h with
    | head => simp [afterWindowCursor]
    | behind before row rest heq =>
      rw [Store.windowEvents] at heq
      have hpred : afterWindowCursor (some (windowCursor row)) = fun e =>
        decide (windowKey row < windowKey e) :=
        funext (afterWindowCursor_row row)
      rw [Store.windowEvents, heq, hpred]
      exact Keyset.filter_behind (heq ▸ hstrict)
  have hmem : ∀ e ∈ rest, e ∈ s.events := by
    intro e he
    rw [← hrest] at he
    have hall := (Keyset.ordered_perm _).mem_iff.mp (List.mem_of_mem_filter he)
    exact List.mem_of_mem_filter hall
  have hfetched : fetchWindow s communityId channelId kindFilter cursor (limit.toNat + 1) =
      rest.take (limit.toNat + 1) := by
    rw [fetchWindow, Keyset.ordered_filter hkeys, ← Store.windowEvents, hrest]
  have hmore : decide ((rest.take (limit.toNat + 1)).length > limit.toNat) =
      decide (limit.toNat < rest.length) := by
    rw [decide_eq_decide, List.length_take]
    omega
  have htake : (rest.take (limit.toNat + 1)).take limit.toNat = rest.take limit.toNat := by
    rw [List.take_take, Nat.min_eq_left (Nat.le_succ _)]
  have hrows := @decodeRows_ok _ _ (toWindowRow deserialize s) (rest.take limit.toNat)
    fun e he => exists_toWindowRow (hmem e (List.mem_of_mem_take he))
  simp only [getChannelWindow, hfetched, hmore, htake, hrows, Except.map, decide_eq_true_eq]

end Window

/-! ## `get_thread_replies_on` -/

section Replies

variable (deserialize : EventJson → Option SignedEvent) (s : Store) (communityId : CommunityId)
  (rootEventId : List UInt8) (depthLimit : Option UInt32) (limit : UInt32)

structure ThreadReply where
  eventId : EventId
  parentEventId : Option EventId
  rootEventId : Option EventId
  channelId : Uuid
  pubkey : List UInt8
  tags : Json
  content : String
  storedEvent : StoredEvent
  depth : Int
  createdAt : DateTime
  broadcast : Bool

/-- `i64::to_be_bytes`. -/
def toBeBytes (n : Int) : List UInt8 := (FixedBytes.ofNat 8 (n % 2 ^ 64).toNat).bytes

/-- `i64::from_be_bytes`. -/
def fromBeBytes (bytes : List UInt8) : Int :=
  let n : Nat := bytes.foldl (fun acc b => 256 * acc + b.toNat) 0
  if n < 2 ^ 63 then n else n - 2 ^ 64

/-- Cursor bytes: the seconds, then the event id; without an id it is the legacy cursor. -/
def cursorKey : Option (List UInt8) → Option (DateTime × Option (List UInt8))
  | none => none
  | some bytes =>
    if 8 ≤ bytes.length then
      (DateTime.fromTimestamp (fromBeBytes (bytes.take 8))).map fun ts =>
        (ts, if 8 < bytes.length then some (bytes.drop 8) else none)
    else none

/-- A row of the join. -/
abbrev ReplyRow := ThreadMetadataRow × EventsRow

/-- The live replies under a root, down to the depth asked for. -/
def Store.replies : List ReplyRow :=
  (s.threadMetadata.filterMap fun tm => (s.eventOf tm).map fun e => (tm, e)).filter fun row =>
    decide (row.1.communityId = communityId) &&
      decide (row.1.rootEventId.map FixedBytes.bytes = some rootEventId)
      && !row.2.deleted && depthLimit.all fun dl => decide (row.1.depth ≤ asI32 dl)

def afterReplyCursor (key : Option (DateTime × Option (List UInt8))) (row : ReplyRow) : Bool :=
  match key with
  | some (ts, some id) =>
    decide (ts.secs < row.1.eventCreatedAt.secs)
      || (decide (row.1.eventCreatedAt = ts) && byteaLt id row.1.eventId.bytes)
  | some (ts, none) => decide (ts.secs < row.1.eventCreatedAt.secs)
  | none => true

/-- `ORDER BY tm.event_created_at ASC, tm.event_id ASC`. -/
def replyKey (row : ReplyRow) : Int ×ₗ List Nat :=
  toLex (row.1.eventCreatedAt.secs, byteaKey row.1.eventId.bytes)

/-- What a fetched row becomes; its `channel_id` column is that of the metadata. -/
def toThreadReply (row : ReplyRow) : Except DbError (Option ThreadReply) :=
  (rowToStoredEvent deserialize { row.2 with channelId := some row.1.channelId }).map
    (Option.map fun storedEvent =>
    { eventId := row.1.eventId
      parentEventId := row.1.parentEventId
      rootEventId := row.1.rootEventId
      channelId := row.1.channelId
      pubkey := row.2.pubkey
      tags := row.2.tags
      content := storedEvent.signed.content
      storedEvent
      depth := row.1.depth
      createdAt := row.1.eventCreatedAt
      broadcast := row.1.broadcast })

/-- The limit is bound as an `i32`, which the database refuses when it is negative. -/
def getThreadReplies (cursor : Option (List UInt8)) : Except DbError (List ThreadReply) :=
  let rows := Keyset.ordered replyKey
    ((s.replies communityId rootEventId depthLimit).filter (afterReplyCursor (cursorKey cursor)))
  if asI32 limit < 0 then .error (.sqlx "LIMIT must not be negative")
  else decodeRows (toThreadReply deserialize) (rows.take (asI32 limit).toNat)

variable {deserialize s communityId rootEventId depthLimit limit}

theorem fromBeBytes_toBeBytes {n : Int} (h : -2 ^ 63 ≤ n ∧ n < 2 ^ 63) :
    fromBeBytes (toBeBytes n) = n := by
  have hfold : ∀ k v : Nat, v < 256 ^ k →
      (FixedBytes.ofNat k v).bytes.foldl (fun acc b => 256 * acc + b.toNat) 0 = v := by
    intro k
    induction k with
    | zero =>
      intro v hv
      have hzero : v = 0 := by omega
      rw [hzero]
      rfl
    | succ k ih =>
      intro v hv
      rw [FixedBytes.ofNat_succ_bytes, List.foldl_append,
        ih (v / 256) (by rw [Nat.pow_succ] at hv; omega)]
      simp
      omega
  have hlt : (n % 2 ^ 64).toNat < 256 ^ 8 := by omega
  rw [fromBeBytes, toBeBytes, hfold 8 _ hlt]
  split <;> omega

theorem length_toBeBytes (n : Int) : (toBeBytes n).length = 8 := (FixedBytes.ofNat 8 _).length_eq

/-- The cursor of a reply, as bytes. -/
def replyCursor (createdAt : DateTime) (eventId : EventId) : List UInt8 :=
  toBeBytes createdAt.secs ++ eventId.bytes

theorem cursorKey_replyCursor (createdAt : DateTime) (eventId : EventId) :
    cursorKey (some (replyCursor createdAt eventId)) = some (createdAt, some eventId.bytes) := by
  have hlen := length_toBeBytes createdAt.secs
  have hid := eventId.length_eq
  have hrange := createdAt.inRange
  have hsecs := fromBeBytes_toBeBytes (n := createdAt.secs) (by omega)
  have htake : (replyCursor createdAt eventId).take 8 = toBeBytes createdAt.secs :=
    List.take_left' hlen
  have hdrop : (replyCursor createdAt eventId).drop 8 = eventId.bytes := List.drop_left' hlen
  have htotal : (replyCursor createdAt eventId).length = 40 := by
    rw [replyCursor, List.length_append]
    omega
  rw [cursorKey, htotal, htake, hdrop, hsecs]
  simp

theorem replyKey_lt_iff {a b : ReplyRow} :
    replyKey a < replyKey b ↔ a.1.eventCreatedAt.secs < b.1.eventCreatedAt.secs
      ∨ (b.1.eventCreatedAt = a.1.eventCreatedAt ∧
        byteaKey a.1.eventId.bytes < byteaKey b.1.eventId.bytes) := by
  rw [replyKey, replyKey, Prod.Lex.toLex_lt_toLex]
  have hsecs : a.1.eventCreatedAt.secs = b.1.eventCreatedAt.secs ↔
      b.1.eventCreatedAt = a.1.eventCreatedAt :=
    ⟨fun h => DateTime.ext h.symm, fun h => by rw [h]⟩
  rw [hsecs]

/-- The cursor bytes of a row. -/
def rowCursor (row : ReplyRow) : List UInt8 := replyCursor row.1.eventCreatedAt row.1.eventId

theorem afterReplyCursor_row (a b : ReplyRow) :
    afterReplyCursor (cursorKey (some (rowCursor a))) b = decide (replyKey a < replyKey b) := by
  rw [rowCursor, cursorKey_replyCursor, afterReplyCursor, Bool.eq_iff_iff]
  simp [byteaLt, replyKey_lt_iff]

theorem mem_replies {row : ReplyRow} (h : row ∈ s.replies communityId rootEventId depthLimit) :
    row.1 ∈ s.threadMetadata ∧ s.eventOf row.1 = some row.2 ∧ row.1.communityId = communityId := by
  obtain ⟨hjoin, hwhere⟩ := List.mem_filter.mp h
  obtain ⟨tm, htm, hrow⟩ := List.mem_filterMap.mp hjoin
  obtain ⟨e, he, rfl⟩ := Option.map_eq_some_iff.mp hrow
  simp only [Bool.and_eq_true, decide_eq_true_eq] at hwhere
  exact ⟨htm, he, hwhere.1.1.1⟩

/-- One row for each metadata row, so the primary key tells them apart. -/
theorem replies_keys : ((s.replies communityId rootEventId depthLimit).map replyKey).Nodup := by
  have hjoin : (s.threadMetadata.filterMap fun tm => (s.eventOf tm).map fun e => (tm, e)).Pairwise
      fun a b => a.1.key ≠ b.1.key := by
    rw [List.pairwise_filterMap]
    refine (List.pairwise_map.mp s.threadMetadata_pkey).imp ?_
    intro a b hab p hp q hq
    obtain ⟨_, _, rfl⟩ := Option.map_eq_some_iff.mp hp
    obtain ⟨_, _, rfl⟩ := Option.map_eq_some_iff.mp hq
    exact hab
  have hpair : (s.replies communityId rootEventId depthLimit).Pairwise fun a b =>
    a.1.key ≠ b.1.key := hjoin.filter _
  rw [List.Nodup, List.pairwise_map]
  refine hpair.imp_of_mem ?_
  intro a b ha hb hab hkey
  have hcomm : a.1.communityId = b.1.communityId :=
    (mem_replies ha).2.2.trans (mem_replies hb).2.2.symm
  have hsplit := Prod.ext_iff.mp (toLex.injective hkey)
  have hsecs : a.1.eventCreatedAt = b.1.eventCreatedAt := DateTime.ext hsplit.1
  have hid : a.1.eventId = b.1.eventId := FixedBytes.ext (byteaKey_inj hsplit.2)
  exact hab (by rw [ThreadMetadataRow.key, ThreadMetadataRow.key, hsecs, hid, hcomm])

theorem exists_toThreadReply {row : ReplyRow}
    (h : row ∈ s.replies communityId rootEventId depthLimit) :
    ∃ item, toThreadReply deserialize row = .ok item := by
  have hmem := (Store.eventOf_some (mem_replies h).2.1).1
  obtain ⟨se, hse⟩ := @rowToStoredEvent_ok deserialize
      { row.2 with channelId := some row.1.channelId }
    (s.kinds_u16 row.2 hmem)
  rw [toThreadReply, hse]
  exact ⟨_, rfl⟩

/-- The replies in the order of the pages. -/
def Store.orderedReplies (s : Store) (communityId : CommunityId) (rootEventId : List UInt8)
    (depthLimit : Option UInt32) : List ReplyRow :=
  Keyset.ordered replyKey (s.replies communityId rootEventId depthLimit)

/-- What one page of replies holds. -/
theorem getThreadReplies_page {cursor : Option (List UInt8)} {rest : List ReplyRow}
    (hlimit : limit.toNat < 2 ^ 31)
    (h : Keyset.Remaining rowCursor
      (s.orderedReplies communityId rootEventId depthLimit) cursor rest) :
    getThreadReplies deserialize s communityId rootEventId depthLimit limit cursor
      = .ok ((rest.take limit.toNat).filterMap (decoded (toThreadReply deserialize))) := by
  have hkeys := @replies_keys s communityId rootEventId depthLimit
  have hstrict := Keyset.ordered_strict hkeys
  have hrest : (s.orderedReplies communityId rootEventId depthLimit).filter
      (afterReplyCursor (cursorKey cursor)) = rest := by
    cases h with
    | head => simp [cursorKey, afterReplyCursor]
    | behind before row rest heq =>
      rw [Store.orderedReplies] at heq
      have hpred : afterReplyCursor (cursorKey (some (rowCursor row))) = fun r =>
        decide (replyKey row < replyKey r) :=
        funext (afterReplyCursor_row row)
      rw [Store.orderedReplies, heq, hpred]
      exact Keyset.filter_behind (heq ▸ hstrict)
  have hmem : ∀ row ∈ rest, row ∈ s.replies communityId rootEventId depthLimit := by
    intro row hrow
    rw [← hrest] at hrow
    exact (Keyset.ordered_perm _).mem_iff.mp (List.mem_of_mem_filter hrow)
  have hnonneg := asI32_nonneg_iff.mpr hlimit
  have hrows := @decodeRows_ok _ _ (toThreadReply deserialize) (rest.take limit.toNat)
    fun row hrow => exists_toThreadReply (hmem row (List.mem_of_mem_take hrow))
  rw [Store.orderedReplies] at hrest
  rw [getThreadReplies, if_neg (by omega), Keyset.ordered_filter hkeys, hrest,
    asI32_toNat hlimit, hrows]

end Replies

end Pkzz.Db.Thread
