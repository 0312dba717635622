import Pkzz.Db.ThreadPages

/-!
# Following the pages over the bridge

The cursors of `/query` requests and the readers that follow them. A channel window comes
with the cursor of the next page. A page of replies does not: the reader makes one of the
last reply it was shown, and asks until a page comes back empty, or, as the clients do, until
one comes back with less than the limit.

Replies that cannot be decoded are dropped after the limit was applied, so a page can be empty
or short in the middle of a thread.
-/

namespace Pkzz.Relay.Bridge

open Pkzz.Core Pkzz.Lib Pkzz.Db.Thread

/-! ## The cursor of a request -/

/-- `extract_thread_cursor`, on what `as_i64` and `as_str` give for the two fields. -/
def extractThreadCursor (threadCursor : Option Int) (threadCursorId : Option String) :
    Option (List UInt8) :=
  threadCursor.map fun secs =>
    toBeBytes secs ++ ((threadCursorId.bind fun idHex => decodeHex idHex.toList).getD [])

theorem decodeHex_hexEncode (bytes : List UInt8) :
    decodeHex (hexEncode bytes).toList = some bytes := by
  rw [hexEncode, String.toList_ofList, decodeHex_hexByte]

/-! ## Readers -/

section Readers

variable (deserialize : EventJson → Option SignedEvent) (s : Store) (communityId : CommunityId)

/-- A reader of the channel: it follows `next_cursor` until `has_more` is false. -/
def windowPages (channelId : Uuid) (kindFilter : Option (List UInt32)) (limit : UInt32)
    (cursor : Option WindowCursor) : Except DbError (List ChannelWindowRow × Option WindowCursor) :=
  (getChannelWindow deserialize s communityId channelId limit kindFilter cursor).map fun window =>
    (window.rows, if window.hasMore then window.nextCursor else none)

/-- The composite cursor of a reply, the way it reaches the query. -/
def cursorOfReply (reply : ThreadReply) : Option (List UInt8) :=
  extractThreadCursor (some reply.createdAt.secs) (some (hexEncode reply.eventId.bytes))

/-- A reader of the thread: it asks until a page is empty. -/
def replyPages (rootEventId : List UInt8) (depthLimit : Option UInt32) (limit : UInt32)
    (cursor : Option (List UInt8)) : Except DbError (List ThreadReply × Option (List UInt8)) :=
  (getThreadReplies deserialize s communityId rootEventId depthLimit limit cursor).map
    fun replies =>
    (replies, replies.getLast?.bind cursorOfReply)

/-- A reader of the thread that takes a page under its limit for the last one. -/
def fullReplyPages (rootEventId : List UInt8) (depthLimit : Option UInt32) (limit : UInt32)
    (cursor : Option (List UInt8)) : Except DbError (List ThreadReply × Option (List UInt8)) :=
  (getThreadReplies deserialize s communityId rootEventId depthLimit limit cursor).map
    fun replies =>
    (replies, if replies.length < limit.toNat then none else replies.getLast?.bind cursorOfReply)

end Readers

/-! ## What they should see -/

/-- `out` shows each of the selected rows that has an item once, in order. -/
def Lists {ρ β : Type} (before : ρ → ρ → Prop) (selected : List ρ) (item : ρ → Option β)
    (out : List β) : Prop :=
  ∃ rows : List ρ, rows.Perm selected ∧ rows.Pairwise before ∧ out = rows.filterMap item

/-- `created_at` descending, id ascending. -/
def WindowBefore (a b : EventsRow) : Prop :=
  b.createdAt.secs < a.createdAt.secs ∨
    (b.createdAt = a.createdAt ∧ byteaKey a.id.bytes < byteaKey b.id.bytes)

/-- `event_created_at` ascending, event id ascending. -/
def ReplyBefore (a b : ReplyRow) : Prop :=
  a.1.eventCreatedAt.secs < b.1.eventCreatedAt.secs
    ∨ (b.1.eventCreatedAt = a.1.eventCreatedAt ∧
      byteaKey a.1.eventId.bytes < byteaKey b.1.eventId.bytes)

section Exact

variable (deserialize : EventJson → Option SignedEvent) (s : Store) (communityId : CommunityId)
  (channelId : Uuid) (kindFilter : Option (List UInt32)) (rootEventId : List UInt8)
    (depthLimit : Option UInt32)
  (limit : UInt32)

/-- The windows end after finitely many pages and show every live top-level event once, in order. -/
def WindowsExact : Prop :=
  ∃ out, Keyset.Follows (windowPages deserialize s communityId channelId kindFilter limit) none out
    ∧ Lists WindowBefore (s.topLevelEvents communityId channelId kindFilter)
      (decoded (toWindowRow deserialize s)) out

/-- The same for the replies of a root, as the pages given are followed. -/
def RepliesExact (pages : Option (List UInt8) →
    Except DbError (List ThreadReply × Option (List UInt8))) : Prop :=
  ∃ out, Keyset.Follows pages none out
    ∧ Lists ReplyBefore (s.replies communityId rootEventId depthLimit)
      (decoded (toThreadReply deserialize)) out

variable {deserialize s communityId channelId kindFilter rootEventId depthLimit limit}

/-- Only one list is in order, the one the pages follow. -/
theorem lists_iff {ρ β κ : Type} [LinearOrder κ] {key : ρ → κ} {before : ρ → ρ → Prop}
    {selected : List ρ}
    {item : ρ → Option β} {out : List β} (hbefore : ∀ a b, key a < key b ↔ before a b)
    (hkeys : (selected.map key).Nodup) :
    Lists before selected item out ↔ out = (Keyset.ordered key selected).filterMap item := by
  constructor
  · rintro ⟨rows, hperm, hpair, rfl⟩
    have hstrict : rows.Pairwise fun a b => key a < key b := hpair.imp fun hab =>
      (hbefore _ _).mpr hab
    rw [Keyset.eq_ordered hperm hstrict]
  · rintro rfl
    refine ⟨_, Keyset.ordered_perm _, ?_, rfl⟩
    exact (Keyset.ordered_strict hkeys).imp fun hab => (hbefore _ _).mp hab

/-- The windows are followed by keys of fetched rows, whether these could be decoded or not. -/
theorem windows_exact (hlimit : 1 ≤ limit.toNat) :
    WindowsExact deserialize s communityId channelId kindFilter limit := by
  have hprobed : Keyset.Probed
      (windowPages deserialize s communityId channelId kindFilter limit) windowCursor
      limit.toNat (decoded (toWindowRow deserialize s))
        (s.windowEvents communityId channelId kindFilter) := by
    intro cursor rest hrem
    rw [windowPages, getChannelWindow_page hrem]
    by_cases hmore : limit.toNat < rest.length <;> simp [Except.map, hmore]
  refine ⟨_, hprobed.follows hlimit, ?_⟩
  exact (@lists_iff _ _ _ _ windowKey _ _ _ _ (fun a b =>
    windowKey_lt_iff) topLevelEvents_keys).mpr rfl

theorem cursorOfReply_of_decoded {row : ReplyRow} {reply : ThreadReply}
    (h : decoded (toThreadReply deserialize) row = some reply) :
    cursorOfReply reply = some (rowCursor row) := by
  rw [decoded, toThreadReply] at h
  cases hse : rowToStoredEvent deserialize { row.2 with channelId := some row.1.channelId } with
  | error e => simp [hse, Except.map] at h
  | ok se =>
    cases se with
    | none => simp [hse, Except.map] at h
    | some se =>
      rw [hse] at h
      simp only [Except.map, Option.map_some, Option.some.injEq] at h
      subst h
      simp [cursorOfReply, extractThreadCursor, decodeHex_hexEncode, rowCursor, replyCursor]

/-- Exact is to follow the pages to the whole list. -/
theorem repliesExact_iff_follows
    {pages : Option (List UInt8) → Except DbError (List ThreadReply × Option (List UInt8))} :
    RepliesExact deserialize s communityId rootEventId depthLimit pages ↔
      Keyset.Follows pages none
        ((s.orderedReplies communityId rootEventId depthLimit).filterMap
          (decoded (toThreadReply deserialize))) := by
  have hlists := fun out =>
    @lists_iff _ _ _ _ replyKey ReplyBefore _ (decoded (toThreadReply deserialize)) out
    (fun a b => replyKey_lt_iff)
    (@replies_keys s communityId rootEventId depthLimit)
  constructor
  · rintro ⟨out, hfollows, hlist⟩
    rw [(hlists out).mp hlist] at hfollows
    exact hfollows
  · intro hfollows
    exact ⟨_, hfollows, (hlists _).mpr rfl⟩

/-- A limit that does not fit an `i32` fails on the first page. -/
theorem getThreadReplies_of_large (h : ¬ limit.toNat < 2 ^ 31) (cursor : Option (List UInt8)) :
    getThreadReplies deserialize s communityId rootEventId depthLimit limit cursor
      = .error (.sqlx "LIMIT must not be negative") := by
  have hneg : asI32 limit < 0 := by
    by_contra hnonneg
    exact h (asI32_nonneg_iff.mp (by omega))
  rw [getThreadReplies, if_pos hneg]

theorem replyPages_exact_iff :
    RepliesExact deserialize s communityId rootEventId depthLimit
        (replyPages deserialize s communityId rootEventId depthLimit limit) ↔
      limit.toNat < 2 ^ 31 ∧ ¬ Keyset.Blocked limit.toNat (decoded (toThreadReply deserialize))
        (s.orderedReplies communityId rootEventId depthLimit) := by
  rw [repliesExact_iff_follows]
  by_cases hlarge : limit.toNat < 2 ^ 31
  · have hshown : Keyset.Shown
        (replyPages deserialize s communityId rootEventId depthLimit limit) rowCursor
        limit.toNat (decoded (toThreadReply deserialize)) cursorOfReply
        (s.orderedReplies communityId rootEventId depthLimit) := by
      intro cursor rest hrem
      rw [replyPages, getThreadReplies_page hlarge hrem]
      rfl
    rw [hshown.follows_iff fun row reply h => cursorOfReply_of_decoded h]
    exact ⟨fun h => ⟨hlarge, h⟩, fun h => h.2⟩
  · have hfail : replyPages deserialize s communityId rootEventId depthLimit limit none
        = .error (.sqlx "LIMIT must not be negative") := by
      rw [replyPages, getThreadReplies_of_large hlarge]
      rfl
    exact ⟨fun h => absurd h (Keyset.follows_error hfail _), fun h => absurd h.1 hlarge⟩

theorem fullReplyPages_exact_iff (hlimit : 1 ≤ limit.toNat) :
    RepliesExact deserialize s communityId rootEventId depthLimit
        (fullReplyPages deserialize s communityId rootEventId depthLimit limit) ↔
      limit.toNat < 2 ^ 31 ∧ ¬ Keyset.CutOff limit.toNat (decoded (toThreadReply deserialize))
        (s.orderedReplies communityId rootEventId depthLimit) := by
  rw [repliesExact_iff_follows]
  by_cases hlarge : limit.toNat < 2 ^ 31
  · have hshown : Keyset.ShownFull
        (fullReplyPages deserialize s communityId rootEventId depthLimit limit) rowCursor
        limit.toNat (decoded (toThreadReply deserialize)) cursorOfReply
        (s.orderedReplies communityId rootEventId depthLimit) := by
      intro cursor rest hrem
      rw [fullReplyPages, getThreadReplies_page hlarge hrem]
      rfl
    rw [hshown.follows_iff (fun row reply h => cursorOfReply_of_decoded h) hlimit]
    exact ⟨fun h => ⟨hlarge, h⟩, fun h => h.2⟩
  · have hfail : fullReplyPages deserialize s communityId rootEventId depthLimit limit none
        = .error (.sqlx "LIMIT must not be negative") := by
      rw [fullReplyPages, getThreadReplies_of_large hlarge]
      rfl
    exact ⟨fun h => absurd h (Keyset.follows_error hfail _), fun h => absurd h.1 hlarge⟩

end Exact

/-! ## A thread with a damaged reply -/

namespace Damaged

theorem fromHex_hexEncode (n : Nat) (bytes : List UInt8) :
    FixedBytes.fromHex n (hexEncode bytes) = if h : bytes.length = n then
      some ⟨bytes, h⟩ else none := by
  rw [FixedBytes.fromHex, decodeHex_hexEncode]

def tagOfJson : Json → Option Tag
  | .arr items =>
    match items.mapM fun item => match item with | .str text => some text | _ => none with
    | some buf => if h : buf ≠ [] then some ⟨buf, h⟩ else none
    | none => none
  | _ => none

def tagsOfJson : Json → Option (List Tag)
  | .arr items => items.mapM tagOfJson
  | _ => none

/-- `Event`'s deserializer, as far as these rows go: every field has to have its form. -/
def fromValue (json : EventJson) : Option SignedEvent :=
  match FixedBytes.fromHex 32 json.id, FixedBytes.fromHex 32 json.pubkey,
      FixedBytes.fromHex 64 json.sig, tagsOfJson json.tags with
  | some id, some pubkey, some sig, some tags =>
    if 0 ≤ json.createdAt then
      some ⟨⟨id, pubkey, json.createdAt.toNat, json.kind, tags⟩, json.content, sig⟩
    else none
  | _, _, _, _ => none

def community : CommunityId := ⟨FixedBytes.ofNat 16 1⟩

def channel : Uuid := FixedBytes.ofNat 16 2

def root : EventId := FixedBytes.ofNat 32 3

def at10 : DateTime := ⟨10, by decide⟩

/-- A reply with the signature bytes given. -/
def reply (n : Nat) (sig : List UInt8) : EventsRow :=
  { communityId := community, id := FixedBytes.ofNat 32 n, pubkey := (FixedBytes.ofNat 32 5).bytes,
    createdAt := at10
    kind := 9, tags := .arr [], content := "hi", sig, receivedAt := 0, channelId :=
      some channel, deleted := false }

def metadata (n : Nat) : ThreadMetadataRow :=
  { communityId := community, eventCreatedAt := at10, eventId := FixedBytes.ofNat 32 n,
    channelId := channel
    parentEventId := some root, parentEventCreatedAt := some at10, rootEventId := some root
    rootEventCreatedAt := some at10, depth := 1, replyCount := 0, descendantCount :=
      0, lastReplyAt := none
    broadcast := false }

/-- Two replies in one second, the first without a signature. -/
def store : Store where
  events := [reply 7 [], reply 8 (List.replicate 64 0)]
  threadMetadata := [metadata 7, metadata 8]
  events_pkey := by decide
  threadMetadata_pkey := by decide
  kinds_u16 := by decide

theorem orderedReplies_store : store.orderedReplies community root.bytes none
    = [(metadata 7, reply 7 []), (metadata 8, reply 8 (List.replicate 64 0))] := by
  rfl

/-- The signature decides whether a reply can be decoded. -/
theorem isSome_decoded (n : Nat) (sig : List UInt8) :
    (decoded (toThreadReply fromValue) (metadata n, reply n sig)).isSome = decide
    (sig.length = 64) := by
  have hid := (FixedBytes.ofNat 32 n).length_eq
  have hpubkey := (FixedBytes.ofNat 32 5).length_eq
  by_cases hsig : sig.length = 64 <;>
    simp [decoded, toThreadReply, rowToStoredEvent, reply, fromValue, fromHex_hexEncode, Except.map,
      hid, hpubkey, tagsOfJson, at10, hsig]

theorem hidden_first : decoded (toThreadReply fromValue) (metadata 7, reply 7 []) = none := by
  rw [← Option.isNone_iff_eq_none, ← Option.not_isSome, isSome_decoded]
  rfl

theorem shown_second :
    decoded (toThreadReply fromValue) (metadata 8, reply 8 (List.replicate 64 0)) ≠ none := by
  rw [← Option.isSome_iff_ne_none, isSome_decoded]
  rfl

end Damaged

/-! ## The result -/

section Result

variable {deserialize : EventJson → Option SignedEvent} {s : Store} {communityId : CommunityId}
  {channelId : Uuid} {kindFilter : Option (List UInt32)} {rootEventId : List UInt8}
    {depthLimit : Option UInt32}
  {limit : UInt32}

/-- **Channel windows are exact.** **Replies are exact just when no undecodable ones stand in
the way**: for a reader that asks until a page is empty, a whole page of them in front of a
decodable one; for a reader that stops at a short page, one of them on a page in front of it. -/
theorem pages_exact_iff (hlimit : 1 ≤ limit.toNat) :
    WindowsExact deserialize s communityId channelId kindFilter limit
      ∧ (RepliesExact deserialize s communityId rootEventId depthLimit
          (replyPages deserialize s communityId rootEventId depthLimit limit) ↔
        limit.toNat < 2 ^ 31 ∧ ¬ Keyset.Blocked limit.toNat (decoded (toThreadReply deserialize))
          (s.orderedReplies communityId rootEventId depthLimit))
      ∧ (RepliesExact deserialize s communityId rootEventId depthLimit
          (fullReplyPages deserialize s communityId rootEventId depthLimit limit) ↔
        limit.toNat < 2 ^ 31 ∧ ¬ Keyset.CutOff limit.toNat (decoded (toThreadReply deserialize))
          (s.orderedReplies communityId rootEventId depthLimit)) :=
  ⟨windows_exact hlimit, replyPages_exact_iff, fullReplyPages_exact_iff hlimit⟩

/-- The damaged thread, read with two replies to a page. -/
theorem pages_exact_iff_damaged :
    WindowsExact Damaged.fromValue Damaged.store Damaged.community Damaged.channel none 2
      ∧ (RepliesExact Damaged.fromValue Damaged.store Damaged.community Damaged.root.bytes none
          (replyPages Damaged.fromValue Damaged.store Damaged.community Damaged.root.bytes none 2) ↔
        (2 : UInt32).toNat < 2 ^ 31 ∧ ¬ Keyset.Blocked (2 : UInt32).toNat
          (decoded (toThreadReply Damaged.fromValue))
          (Damaged.store.orderedReplies Damaged.community Damaged.root.bytes none))
      ∧ (RepliesExact Damaged.fromValue Damaged.store Damaged.community Damaged.root.bytes none
          (fullReplyPages Damaged.fromValue Damaged.store Damaged.community
            Damaged.root.bytes none 2) ↔
        (2 : UInt32).toNat < 2 ^ 31 ∧ ¬ Keyset.CutOff (2 : UInt32).toNat
          (decoded (toThreadReply Damaged.fromValue))
          (Damaged.store.orderedReplies Damaged.community Damaged.root.bytes none)) :=
  pages_exact_iff (by decide)

/-- With one reply to a page the first page is empty, and no reader gets to the second reply. -/
theorem not_replies_exact :
    ¬ RepliesExact Damaged.fromValue Damaged.store Damaged.community Damaged.root.bytes none
        (replyPages Damaged.fromValue Damaged.store Damaged.community Damaged.root.bytes none 1)
      ∧ ¬ RepliesExact Damaged.fromValue Damaged.store Damaged.community Damaged.root.bytes none
        (fullReplyPages Damaged.fromValue Damaged.store Damaged.community Damaged.root.bytes
          none 1) := by
  rw [replyPages_exact_iff, fullReplyPages_exact_iff (by decide), Damaged.orderedReplies_store]
  constructor
  · rintro ⟨-, hblocked⟩
    refine hblocked ⟨[], [(Damaged.metadata 7, Damaged.reply 7 [])], _, rfl, rfl, ?_, _,
      List.mem_singleton.mpr rfl, Damaged.shown_second⟩
    intro a ha
    rw [List.mem_singleton.mp ha]
    exact Damaged.hidden_first
  · rintro ⟨-, hcut⟩
    exact hcut ⟨1, ⟨_, List.mem_singleton.mpr rfl, Damaged.hidden_first⟩, _,
      List.mem_singleton.mpr rfl, Damaged.shown_second⟩

end Result

end Pkzz.Relay.Bridge
