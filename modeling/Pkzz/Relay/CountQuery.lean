import Pkzz.Core.Visibility

/-!
# Filters as SQL

`buzz-relay`'s `req.rs` and `buzz-db`'s `event.rs`: the query a filter is translated to, the
rows its WHERE clause selects, and when a filter counts as fully pushed down. A `BTreeSet` is
the list of its members in their order.

Rows are `events` rows that decode to an event, with the pubkeys `event_mentions` has for
them; the key of that table makes each of them join once.
-/

namespace Pkzz.Relay

open Pkzz.Core Pkzz.Lib

/-- A filter with the fields that matching does not read. -/
structure ReadFilter extends Filter where
  search : Option String := none
  limit : Option Nat := none

/-- An `events` row. -/
structure EventRow where
  communityId : CommunityId
  stored : StoredEvent
  dTag : Option String
  /-- `event_mentions.pubkey_hex` for the event. -/
  mentions : List String
  deleted : Bool
  deriving DecidableEq

namespace EventRow

def event (row : EventRow) : Event := row.stored.event

def channelId (row : EventRow) : Option Uuid := row.stored.channelId

end EventRow

/-- `extract_d_tag`: what the column holds for an event. -/
def extractDTag (event : Event) : Option String :=
  if isParameterizedReplaceable event.kind.toNat then
    some ((event.tagContents SingleLetterTag.d.toString).head?.getD "")
  else none

structure EventQuery where
  communityId : CommunityId
  channelId : Option Uuid := none
  kinds : Option (List Kind) := none
  pubkey : Option PublicKey := none
  since : Option Int := none
  until' : Option Int := none
  limit : Option Int := none
  maxLimit : Option Int := none
  pTagHex : Option String := none
  dTag : Option String := none
  dTags : Option (List String) := none
  authors : Option (List PublicKey) := none
  ids : Option (List EventId) := none
  eTags : Option (List String) := none
  channelIds : Option (List Uuid) := none
  sharedGatedReader : Option PublicKey := none

def DEFAULT_MAX_PAGE_LIMIT : Int := 1000

/-! ## Timestamps -/

/-- `as i64` of a `u64`. -/
def asI64 (n : Nat) : Int := if n < 2 ^ 63 then n else (n : Int) - 2 ^ 64

/-- `DateTime::from_timestamp`, which covers the years from -262143 to 262142. -/
def fromTimestamp (secs : Int) : Option Int :=
  if -8334601228800 ≤ secs ∧ secs ≤ 8210266876799 then some secs else none

/-- `timestamptz` begins in 4713 BC; a parameter before that is refused. -/
def bindable (t : Int) : Bool := decide (-210866803200 ≤ t)

/-- Text and JSON of the database have no code point zero. -/
def storable (text : String) : Bool := !text.toList.contains (Char.ofNat 0)

/-! ## The translation -/

/-- `extract_channel_id_from_filter`: the first value of `#h` that is a UUID. -/
def extractChannelIdFromFilter (f : Filter) : Option Uuid :=
  f.genericTags.findSome? fun kv =>
    if kv.1.toString = "h" then kv.2.findSome? Uuid.parse else none

/-- `extract_channel_from_filter`: the single value of `#h`. -/
def extractChannelFromFilter (f : Filter) : Option Uuid :=
  match f.genericTag SingleLetterTag.h with
  | some [v] => Uuid.parse v
  | _ => none

/-- Only kinds whose `d_tag` column is filled. -/
def isNip33Only (f : Filter) : Bool :=
  match f.kinds with
  | some ks => !ks.isEmpty && ks.all fun k => isParameterizedReplaceable k.toNat
  | none => false

/-- One round of the loop in `filter_fully_pushable`. -/
def tagPushable (nip33Only : Bool) (key : String) (values : List String) : Bool :=
  if key = "h" then !decide (values.length > 1)
  else if key = "p" then !decide (values.length > 1)
  else if key = "d" then values.isEmpty || nip33Only
  else if key = "e" then true
  else values.isEmpty

def filterFullyPushable (f : ReadFilter) : Bool :=
  f.genericTags.all (fun kv => tagPushable (isNip33Only f.toFilter) kv.1.toString kv.2) &&
    f.search.isNone

def filterToQueryParams (f : ReadFilter) (channelId : Option Uuid) (community : CommunityId) :
    EventQuery :=
  let dValues := if isNip33Only f.toFilter then f.genericTag SingleLetterTag.d else none
  { communityId := community
    channelId
    kinds := f.kinds
    pubkey := match f.authors with
      | some [a] => some a
      | _ => none
    authors := match f.authors with
      | some (a :: b :: rest) => some (a :: b :: rest)
      | _ => none
    ids := match f.ids with
      | some (id :: rest) => some (id :: rest)
      | _ => none
    since := f.since.bind fun s => fromTimestamp (asI64 s)
    until' := f.until'.bind fun u => fromTimestamp (asI64 u)
    limit := some (match f.limit with
      | some l => min (asI64 l) DEFAULT_MAX_PAGE_LIMIT
      | none => DEFAULT_MAX_PAGE_LIMIT)
    eTags := match f.genericTag SingleLetterTag.e with
      | some (v :: rest) => some (v :: rest)
      | _ => none
    pTagHex := match f.genericTag SingleLetterTag.p with
      | some [v] => some v
      | _ => none
    dTag := match dValues with
      | some [v] => some v
      | _ => none
    dTags := match dValues with
      | some (v :: w :: rest) => some (v :: w :: rest)
      | _ => none }

/-! ## The WHERE clause -/

/-- `tags @> '[["e", value]]'`: some tag has both strings among its elements, wherever. -/
def tagsContain (tags : List Tag) (key value : String) : Bool :=
  tags.any fun t => t.buf.contains key && t.buf.contains value

/-- The conditions `query_events_on` and `count_events_on` share. A list that is `Some` and
empty puts no condition; both functions have returned by then. -/
def whereClause (q : EventQuery) (row : EventRow) : Bool :=
  decide (row.communityId = q.communityId) && !row.deleted
    && q.pTagHex.all (fun p => row.mentions.contains (Str.toAsciiLowercase p))
    && q.channelId.all (fun ch => decide (row.channelId = some ch))
    && q.channelIds.all (fun chs => row.channelId.all chs.contains)
    && q.kinds.all (fun ks => ks.isEmpty || ks.contains row.event.kind)
    && q.pubkey.all (fun pk => decide (row.event.pubkey = pk))
    && q.authors.all (fun as => as.isEmpty || as.contains row.event.pubkey)
    && q.ids.all (fun ids => ids.isEmpty || ids.contains row.event.id)
    && q.eTags.all (fun es => es.isEmpty || es.any fun v => tagsContain row.event.tags "e" v)
    && q.since.all (fun s => decide ((row.event.createdAt : Int) ≥ s))
    && q.until'.all (fun u => decide ((row.event.createdAt : Int) ≤ u))
    && (match q.dTag with
      | some d => decide (row.dTag = some d)
      | none => q.dTags.all fun ds => ds.isEmpty || ds.any fun d => decide (row.dTag = some d))

/-- The clause for `shared_gated_reader`, of `query_events_on` alone. -/
def sharedGatedClause (q : EventQuery) (row : EventRow) : Bool :=
  q.sharedGatedReader.all fun reader =>
    !SHARED_GATED_KINDS.contains row.event.kind.toNat || decide (row.event.pubkey = reader)
      || tagsContain row.event.tags "shared" "true"

/-- "Empty list means match nothing": the early returns. -/
def EventQuery.matchesNothing (q : EventQuery) : Bool :=
  q.kinds.any List.isEmpty || q.authors.any List.isEmpty || q.ids.any List.isEmpty ||
    q.eTags.any List.isEmpty

/-- The parameters are texts the database takes. -/
def EventQuery.textsStorable (q : EventQuery) : Bool :=
  q.pTagHex.all storable && q.dTag.all storable && q.dTags.all (fun ds => ds.all storable)
    && q.eTags.all fun es => es.all storable

def EventQuery.isBindable (q : EventQuery) : Bool :=
  q.since.all bindable && q.until'.all bindable && q.textsStorable

/-- The LIMIT of `query_events_on`. -/
def EventQuery.pageLimit (q : EventQuery) : Int :=
  min (q.limit.getD 100) (q.maxLimit.getD DEFAULT_MAX_PAGE_LIMIT)

/-- `count_events_on`; `none` where the database refuses the query. -/
def countEventsOn (rows : List EventRow) (q : EventQuery) : Option Nat :=
  if q.matchesNothing then some 0
  else if q.isBindable then some (rows.countP (whereClause q))
  else none

/-- `query_events_on`; the order of the rows is left open. A LIMIT below zero is an error. -/
def queryEventsOn (rows : List EventRow) (q : EventQuery) : Option (List StoredEvent) :=
  if q.matchesNothing then some []
  else if q.isBindable && decide (0 ≤ q.pageLimit) then
    some (((rows.filter fun row =>
      whereClause q row && sharedGatedClause q row).take q.pageLimit.toNat).map EventRow.stored)
  else none

end Pkzz.Relay
