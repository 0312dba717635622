import Pkzz.Relay.CountQuery

/-!
# COUNT

`buzz-relay`'s `count.rs`. A filter that is fully pushed down is counted by the database;
any other one is fetched, up to a budget, and counted in memory. Each row is counted on its
own, so COUNT is right on every store made of some rows exactly where the SQL conditions and
the in-memory ones agree about each of these rows.
-/

namespace Pkzz.Relay

open Pkzz.Core Pkzz.Lib

def COUNT_FALLBACK_CANDIDATE_LIMIT : Nat := 5000

def applyCountFallbackLimit (q : EventQuery) : EventQuery :=
  let fetchLimit : Int := COUNT_FALLBACK_CANDIDATE_LIMIT + 1
  { q with limit := some fetchLimit, maxLimit := some fetchLimit }

def countFallbackExceeded (candidateCount : Nat) : Bool :=
  decide (candidateCount > COUNT_FALLBACK_CANDIDATE_LIMIT)

/-- What a COUNT request meets: who asks, the cached channels, the token's scope, and what
`is_member` answers. -/
structure Reading where
  community : CommunityId
  pubkey : PublicKey
  cachedChannels : List Uuid
  tokenChannelIds : Option (List Uuid)
  isMember : Uuid → Bool

namespace Reading

/-- The cached channels within the token's scope. -/
def accessibleChannels (r : Reading) : List Uuid :=
  match r.tokenChannelIds with
  | some allowed => r.cachedChannels.filter allowed.contains
  | none => r.cachedChannels

def tokenAllows (r : Reading) (ch : Uuid) : Bool := r.tokenChannelIds.all fun allowed =>
    allowed.contains ch

end Reading

/-- `resolve_request_local_access`: whether the channel may be read, and the repaired list. -/
def resolveRequestLocalAccess (accessibleChannels : List Uuid) (chId : Uuid) (tokenAllows : Bool)
    (dbIsMember : Option Bool) : Bool × List Uuid :=
  if !tokenAllows then (false, accessibleChannels)
  else if accessibleChannels.contains chId then (true, accessibleChannels)
  else if dbIsMember = some true then (true, accessibleChannels ++ [chId])
  else (false, accessibleChannels)

/-- What `handle_count` asks of a filter that names one channel. -/
def resolve (r : Reading) (accessible : List Uuid) (ch : Uuid) : Bool × List Uuid :=
  resolveRequestLocalAccess accessible ch (r.tokenAllows ch)
    (if accessible.contains ch then none else some (r.isMember ch))

/-- Whether the filter is counted by `count_events`. -/
def countsInSql (r : Reading) (f : ReadFilter) : Bool :=
  let needsResultGatedFiltering := filterCanMatchResultGatedKinds f.toFilter
    && !resultGatedCountSafeForPushdown f.toFilter r.pubkey.toHex
  filterFullyPushable f
    && (!filterCanMatchAuthorOnlyKinds f.toFilter || f.authorsAreReader r.pubkey.toHex)
    && !needsResultGatedFiltering
    && !filterCanMatchSharedGatedKinds f.toFilter

/-- A filter that names no channel is restricted to the reader's channels. -/
def withChannelScope (accessible : List Uuid) (f : ReadFilter) (query : EventQuery) : EventQuery :=
  match extractChannelFromFilter f.toFilter with
  | some _ => query
  | none => { query with channelIds := some accessible }

def withSharedGate (r : Reading) (f : ReadFilter) (query : EventQuery) : EventQuery :=
  if filterCanMatchSharedGatedKinds f.toFilter then
    { query with sharedGatedReader := some r.pubkey } else query

/-- The query of the filter alone, `build_event_query_from_filter`. -/
def baseQuery (r : Reading) (f : ReadFilter) : EventQuery :=
  filterToQueryParams f (extractChannelIdFromFilter f.toFilter) r.community

def countQuery (r : Reading) (accessible : List Uuid) (f : ReadFilter) : EventQuery :=
  withSharedGate r f (withChannelScope accessible f (baseQuery r f))

/-- The number of events one query gives; `none` is CLOSED. -/
def countByQuery (rows : List EventRow) (r : Reading) (f : ReadFilter) (query : EventQuery) :
    Option Nat :=
  if countsInSql r f then countEventsOn rows query
  else
    match queryEventsOn rows (applyCountFallbackLimit query) with
    | some storedEvents =>
      if countFallbackExceeded storedEvents.length then none
      else some (storedEvents.countP fun se =>
        filtersMatch [f.toFilter] se && eventVisibleToReader se.event r.pubkey)
    | none => none

/-- The loop over the filters, with the channels repaired so far. -/
def countFilters (rows : List EventRow) (r : Reading) : List Uuid → List ReadFilter → Option Nat
  | _, [] => some 0
  | accessible, f :: fs =>
    match extractChannelFromFilter f.toFilter with
    | some ch =>
      let (allowed, accessible') := resolve r accessible ch
      if !allowed then countFilters rows r accessible' fs
      else
        match countByQuery rows r f (countQuery r accessible' f) with
        | some n => (countFilters rows r accessible' fs).map (n + ·)
        | none => none
    | none =>
      match countByQuery rows r f (countQuery r accessible f) with
      | some n => (countFilters rows r accessible fs).map (n + ·)
      | none => none

/-- `handle_count` of an authenticated reader: the number it sends, or `none` for CLOSED. -/
def handleCount (rows : List EventRow) (r : Reading) (filters : List ReadFilter) : Option Nat :=
  let fs := filters.map ReadFilter.toFilter
  let authed := r.pubkey.toHex
  if !pGatedFiltersAuthorized fs authed then none
  else if !engramFiltersAuthorized fs authed then none
  else if !authorOnlyFiltersAuthorized fs authed then none
  else countFilters rows r r.accessibleChannels filters

/-! ## What a reader may see -/

/-- The channels the reader has access to while the filter is handled. -/
def readableChannels (r : Reading) (f : ReadFilter) : List Uuid :=
  match extractChannelFromFilter f.toFilter with
  | some ch => (resolve r r.accessibleChannels ch).2
  | none => r.accessibleChannels

def readable (channels : List Uuid) (row : EventRow) : Bool := row.channelId.all channels.contains

/-- A live event of the community that REQ would deliver for the filter. -/
def delivered (r : Reading) (f : ReadFilter) (row : EventRow) : Bool :=
  decide (row.communityId = r.community) && !row.deleted && filtersMatch [f.toFilter] row.stored
    && readable (readableChannels r f) row && eventVisibleToReader row.event r.pubkey

/-! ## Where SQL and memory agree -/

/-- Whether a filter that names a channel is skipped. -/
def skipped (r : Reading) (f : ReadFilter) : Bool :=
  match extractChannelFromFilter f.toFilter with
  | some ch => !(resolve r r.accessibleChannels ch).1
  | none => false

/-- The query the filter is counted by. -/
def queryOf (r : Reading) (f : ReadFilter) : EventQuery := countQuery r (readableChannels r f) f

/-- The conditions both sides read alike: the community, deletion, channel access, kinds, and
the authors and ids of lists that are not empty. -/
def commonAdmits (r : Reading) (f : ReadFilter) (row : EventRow) : Bool :=
  decide (row.communityId = r.community) && !row.deleted && readable (readableChannels r f) row
    && f.kinds.all (fun ks => ks.contains row.event.kind)
    && f.authors.all (fun as => as.isEmpty || as.contains row.event.pubkey)
    && f.ids.all (fun ids => ids.isEmpty || ids.contains row.event.id)

/-- What SQL makes of the rest: the channel column, the mention rows, the `d_tag` column, JSON
containment for `#e`, and the timestamps as `i64`. -/
def sqlAdmits (r : Reading) (f : ReadFilter) (row : EventRow) : Bool :=
  let q := baseQuery r f
  !skipped r f
    && q.pTagHex.all (fun p => row.mentions.contains (Str.toAsciiLowercase p))
    && q.channelId.all (fun ch => decide (row.channelId = some ch))
    && q.eTags.all (fun es => es.isEmpty || es.any fun v => tagsContain row.event.tags "e" v)
    && q.since.all (fun s => decide ((row.event.createdAt : Int) ≥ s))
    && q.until'.all (fun u => decide ((row.event.createdAt : Int) ≤ u))
    && (match q.dTag with
      | some d => decide (row.dTag = some d)
      | none => q.dTags.all fun ds => ds.isEmpty || ds.any fun d => decide (row.dTag = some d))

/-- What `filters_match` makes of it: empty lists admit nothing, timestamps are `u64`, and each
tag constraint needs a tag whose value is wanted. -/
def memoryAdmits (f : ReadFilter) (row : EventRow) : Bool :=
  f.ids.all (fun ids => !ids.isEmpty) && f.authors.all (fun as => !as.isEmpty)
    && f.since.all (fun s => !decide (row.event.createdAt < s))
    && f.until'.all (fun u => !decide (row.event.createdAt > u))
    && f.genericTags.all fun kv => tagConstraintMatches row.stored kv.1 kv.2

/-- On the fast path the two have to say the same; on the slow path, where memory has the last
word, SQL must not lose an event. -/
def Agrees (r : Reading) (f : ReadFilter) (row : EventRow) : Prop :=
  commonAdmits r f row = true →
    if countsInSql r f = true then (sqlAdmits r f row = true ↔ memoryAdmits f row = true)
    else memoryAdmits f row = true → eventVisibleToReader row.event r.pubkey = true →
      sqlAdmits r f row = true

/-! ## One row -/

variable {r : Reading} {f : ReadFilter} {row : EventRow}

theorem ids_any_startsWith {ids : List EventId} {id : EventId} :
    (ids.any fun i => Str.startsWith id.toHex i.toHex) = ids.contains id := by
  rw [Bool.eq_iff_iff, List.any_eq_true, List.contains_iff_mem]
  constructor
  · intro h
    obtain ⟨i, hi, hs⟩ := h
    rw [FixedBytes.startsWith_toHex.mp hs]
    exact hi
  · intro h
    exact ⟨id, h, FixedBytes.startsWith_toHex.mpr rfl⟩

/-- A list that is not empty and admits the value, with one that is empty ruled out. -/
theorem optionAll_split {α : Type} [BEq α] [LawfulBEq α] (o : Option (List α)) (x : α) :
    o.all (fun l => l.contains x) =
      (o.all (fun l => l.isEmpty || l.contains x) && o.all fun l => !l.isEmpty) := by
  cases o with
  | none => rfl
  | some l =>
    cases l with
    | nil => rfl
    | cons a l => simp

/-- The match of a filter, split into what SQL reads alike and the rest. -/
theorem match_eq : filterMatchOne f.toFilter row.stored =
    (f.kinds.all (fun ks => ks.contains row.event.kind)
      && f.authors.all (fun as => as.isEmpty || as.contains row.event.pubkey)
      && f.ids.all (fun ids => ids.isEmpty || ids.contains row.event.id) &&
        memoryAdmits f row) := by
  have hids : f.ids.all (fun ids => ids.any fun i => Str.startsWith row.event.id.toHex i.toHex)
      = (f.ids.all (fun ids => ids.isEmpty || ids.contains row.event.id) &&
        f.ids.all fun ids => !ids.isEmpty) := by
    rw [← optionAll_split]
    simp only [ids_any_startsWith]
  have hauthors := optionAll_split f.authors row.event.pubkey
  have hexp : filterMatchOne f.toFilter row.stored =
      (f.kinds.all (fun ks => ks.contains row.event.kind) && f.authors.all (fun as =>
        as.contains row.event.pubkey) && f.since.all (fun s => !decide (row.event.createdAt < s))
        && f.until'.all (fun u => !decide (row.event.createdAt > u))
        && f.ids.all (fun ids => ids.any fun i => Str.startsWith row.event.id.toHex i.toHex)
        && f.genericTags.all fun kv => tagConstraintMatches row.stored kv.1 kv.2) := by
    unfold filterMatchOne EventRow.event
    cases f.kinds <;> cases f.authors <;> cases f.since <;> cases f.until' <;> cases f.ids <;> rfl
  rw [hexp, hids, hauthors]
  unfold memoryAdmits
  simp only [Bool.and_assoc, Bool.and_comm, Bool.and_left_comm]

/-- What REQ delivers, in the same two parts. -/
theorem delivered_eq : delivered r f row =
    (commonAdmits r f row && memoryAdmits f row && eventVisibleToReader row.event r.pubkey) := by
  have hone : filtersMatch [f.toFilter] row.stored = filterMatchOne f.toFilter row.stored := by
    unfold filtersMatch
    simp
  unfold delivered commonAdmits
  rw [hone, match_eq]
  simp only [Bool.and_assoc, Bool.and_comm, Bool.and_left_comm]

theorem authors_clause (channelId : Option Uuid) (community : CommunityId) (pk : PublicKey) :
    ((filterToQueryParams f channelId community).pubkey.all (fun a => decide (pk = a))
      && (filterToQueryParams f channelId community).authors.all (fun as =>
        as.isEmpty || as.contains pk))
      = f.authors.all (fun as => as.isEmpty || as.contains pk) := by
  unfold filterToQueryParams
  match f.authors with
  | none => rfl
  | some [] => rfl
  | some [a] => simp
  | some (a :: b :: rest) => rfl

theorem ids_clause (channelId : Option Uuid) (community : CommunityId) (id : EventId) :
    (filterToQueryParams f channelId community).ids.all (fun ids => ids.isEmpty || ids.contains id)
      = f.ids.all (fun ids => ids.isEmpty || ids.contains id) := by
  unfold filterToQueryParams
  match f.ids with
  | none => rfl
  | some [] => rfl
  | some (a :: rest) => rfl

theorem matchesNothing_eq (channelId : Option Uuid) (community : CommunityId) :
    (filterToQueryParams f channelId community).matchesNothing = f.kinds.any List.isEmpty := by
  have hauthors : (filterToQueryParams f channelId community).authors.any List.isEmpty = false := by
    unfold filterToQueryParams
    match f.authors with
    | none => rfl
    | some [] => rfl
    | some [a] => rfl
    | some (a :: b :: rest) => rfl
  have hids : (filterToQueryParams f channelId community).ids.any List.isEmpty = false := by
    unfold filterToQueryParams
    match f.ids with
    | none => rfl
    | some [] => rfl
    | some (a :: rest) => rfl
  have he : (filterToQueryParams f channelId community).eTags.any List.isEmpty = false := by
    unfold filterToQueryParams
    match f.genericTag SingleLetterTag.e with
    | none => rfl
    | some [] => rfl
    | some (a :: rest) => rfl
  unfold EventQuery.matchesNothing
  rw [hauthors, hids, he]
  simp only [Bool.or_false]
  rfl

/-- The kinds clause together with the early return for an empty list. -/
theorem kinds_clause (k : Kind) :
    (!f.kinds.any List.isEmpty && f.kinds.all (fun ks => ks.isEmpty || ks.contains k))
      = f.kinds.all (fun ks => ks.contains k) := by
  match f.kinds with
  | none => rfl
  | some [] => rfl
  | some (a :: rest) => simp

/-- The WHERE clause of the filter alone: the parts both sides read alike without the channel
access, and SQL's readings. -/
theorem where_base :
    (!(baseQuery r f).matchesNothing && whereClause (baseQuery r f) row && !skipped r f) =
    (decide (row.communityId = r.community) && !row.deleted
      && f.kinds.all (fun ks => ks.contains row.event.kind)
      && f.authors.all (fun as => as.isEmpty || as.contains row.event.pubkey)
      && f.ids.all (fun ids => ids.isEmpty || ids.contains row.event.id) && sqlAdmits r f row) := by
  have hnothing : (baseQuery r f).matchesNothing = f.kinds.any List.isEmpty := matchesNothing_eq _ _
  rw [hnothing, ← kinds_clause,
    ← authors_clause (extractChannelIdFromFilter f.toFilter) r.community,
    ← ids_clause (extractChannelIdFromFilter f.toFilter) r.community]
  have hchannels : (baseQuery r f).channelIds = none := rfl
  have hkinds : (baseQuery r f).kinds = f.kinds := rfl
  have hcommunity : (baseQuery r f).communityId = r.community := rfl
  unfold whereClause sqlAdmits
  rw [hchannels, hkinds, hcommunity]
  rw [Bool.eq_iff_iff]
  simp only [Bool.and_eq_true, Option.all_none, and_true]
  constructor
  · intro h
    obtain ⟨⟨hk, ⟨⟨⟨⟨⟨⟨⟨⟨⟨⟨hscope, hp⟩, hch⟩, hks⟩, hpk⟩, has⟩, hid⟩, he⟩, hsi⟩, hun⟩, hd⟩⟩,
        hskip⟩ := h
    exact ⟨⟨⟨⟨hscope, hk, hks⟩, hpk, has⟩, hid⟩, ⟨⟨⟨⟨⟨hskip, hp⟩, hch⟩, he⟩, hsi⟩, hun⟩, hd⟩
  · intro h
    obtain ⟨⟨⟨⟨hscope, hk, hks⟩, hpk, has⟩, hid⟩, ⟨⟨⟨⟨⟨hskip, hp⟩, hch⟩, he⟩, hsi⟩, hun⟩, hd⟩ := h
    exact ⟨⟨hk, ⟨⟨⟨⟨⟨⟨⟨⟨⟨⟨hscope, hp⟩, hch⟩, hks⟩, hpk⟩, has⟩, hid⟩, he⟩, hsi⟩, hun⟩, hd⟩⟩, hskip⟩

/-! ## The channel of a filter -/

/-- A single `#h` is the channel the translation finds. -/
theorem extractChannelId_of_single {ch : Uuid} (h : extractChannelFromFilter f.toFilter = some ch) :
    extractChannelIdFromFilter f.toFilter = some ch := by
  unfold extractChannelFromFilter Filter.genericTag at h
  unfold extractChannelIdFromFilter
  cases hfind : f.genericTags.find? fun kv => kv.1 = SingleLetterTag.h with
  | none => rw [hfind] at h; cases h
  | some kv =>
    rw [hfind] at h
    obtain ⟨hkey, as, bs, hlist, hbefore⟩ := List.find?_eq_some_iff_append.mp hfind
    have hname : kv.1.toString = "h" := by rw [of_decide_eq_true hkey]; decide
    -- no pair before this one is named `h`
    have hskip : as.findSome? (fun kv => if kv.1.toString = "h" then
        kv.2.findSome? Uuid.parse else none) = none := by
      rw [List.findSome?_eq_none_iff]
      intro a ha
      have hne : a.1 ≠ SingleLetterTag.h := by simpa using hbefore a ha
      rw [if_neg]
      intro hc
      refine hne ?_
      have hchar : a.1.char = 'h' := by
        have hto : (String.singleton a.1.char).toList = ['h'] := congrArg String.toList hc
        simpa using hto
      cases hx : a.1 with
      | mk c hc =>
        rw [hx] at hchar
        cases hchar
        rfl
    rw [hlist, List.findSome?_append, hskip, List.findSome?_cons, if_pos hname]
    match hv : kv.2, h with
    | [v], h =>
      simp only [Option.map_some, hv] at h
      simp [h]
    | [], h => simp [hv] at h
    | v :: w :: rest, h => simp [hv] at h

theorem mem_resolve {accessible : List Uuid} {ch : Uuid} (h : (resolve r accessible ch).1 = true) :
    (resolve r accessible ch).2.contains ch = true := by
  unfold resolve resolveRequestLocalAccess at h ⊢
  by_cases htoken : (!r.tokenAllows ch) = true
  · rw [if_pos htoken] at h
    cases h
  rw [if_neg htoken] at h ⊢
  by_cases hmem : accessible.contains ch = true
  · rw [if_pos hmem]
    exact hmem
  rw [if_neg hmem, if_neg hmem] at h ⊢
  by_cases hdb : some (r.isMember ch) = some true
  · rw [if_pos hdb]
    simp
  · rw [if_neg hdb] at h
    cases h

/-- A row of the channel a filter names is readable. -/
theorem readable_of_sqlAdmits {ch : Uuid} (hch : extractChannelFromFilter f.toFilter = some ch)
    (h : sqlAdmits r f row = true) : readable (readableChannels r f) row = true := by
  unfold sqlAdmits at h
  simp only [Bool.and_eq_true] at h
  have hskip := h.1.1.1.1.1.1
  have hrow := h.1.1.1.1.2
  have hq : (baseQuery r f).channelId = extractChannelIdFromFilter f.toFilter := rfl
  rw [hq, extractChannelId_of_single hch] at hrow
  have hrow : row.channelId = some ch := by simpa using hrow
  unfold skipped at hskip
  rw [hch] at hskip
  unfold readable readableChannels
  rw [hrow, hch]
  exact mem_resolve (by simpa using hskip)

theorem where_withSharedGate (q : EventQuery) :
    whereClause (withSharedGate r f q) row = whereClause q row := by
  unfold withSharedGate
  split
  · rfl
  · rfl

theorem where_channelIds {q : EventQuery} (hq : q.channelIds = none) (channels : List Uuid) :
    whereClause { q with channelIds := some channels } row =
      (whereClause q row && readable channels row) := by
  unfold whereClause readable
  rw [hq, Bool.eq_iff_iff]
  simp only [Bool.and_eq_true, Option.all_none, Option.all_some, and_true]
  constructor
  · intro h
    obtain ⟨⟨⟨⟨⟨⟨⟨⟨⟨⟨⟨hscope, hp⟩, hch⟩, hread⟩, hks⟩, hpk⟩, has⟩, hid⟩, he⟩, hsi⟩, hun⟩, hd⟩ := h
    exact ⟨⟨⟨⟨⟨⟨⟨⟨⟨⟨⟨hscope, hp⟩, hch⟩, hks⟩, hpk⟩, has⟩, hid⟩, he⟩, hsi⟩, hun⟩, hd⟩, hread⟩
  · intro h
    obtain ⟨⟨⟨⟨⟨⟨⟨⟨⟨⟨⟨hscope, hp⟩, hch⟩, hks⟩, hpk⟩, has⟩, hid⟩, he⟩, hsi⟩, hun⟩, hd⟩, hread⟩ := h
    exact ⟨⟨⟨⟨⟨⟨⟨⟨⟨⟨⟨hscope, hp⟩, hch⟩, hread⟩, hks⟩, hpk⟩, has⟩, hid⟩, he⟩, hsi⟩, hun⟩, hd⟩

theorem where_queryOf : whereClause (queryOf r f) row =
    (whereClause (baseQuery r f) row
      && ((extractChannelFromFilter f.toFilter).isSome ||
        readable (readableChannels r f) row)) := by
  unfold queryOf countQuery
  rw [where_withSharedGate]
  unfold withChannelScope
  cases hch : extractChannelFromFilter f.toFilter with
  | some ch => simp
  | none =>
    simp only [Option.isSome_none, Bool.false_or]
    exact where_channelIds rfl _

theorem matchesNothing_queryOf : (queryOf r f).matchesNothing = (baseQuery r f).matchesNothing := by
  unfold queryOf countQuery withSharedGate withChannelScope
  cases extractChannelFromFilter f.toFilter with
  | some ch => split <;> rfl
  | none => split <;> rfl

/-- **What SQL selects** is what the common conditions and SQL's readings admit. -/
theorem selected_eq :
    (!(queryOf r f).matchesNothing && whereClause (queryOf r f) row && !skipped r f) =
    (commonAdmits r f row && sqlAdmits r f row) := by
  have hbase := @where_base r f row
  rw [where_queryOf, matchesNothing_queryOf]
  rw [Bool.eq_iff_iff] at hbase ⊢
  unfold commonAdmits
  simp only [Bool.and_eq_true, Bool.or_eq_true] at hbase ⊢
  constructor
  · intro h
    obtain ⟨⟨hn, hw, hread⟩, hskip⟩ := h
    obtain ⟨⟨⟨⟨⟨hc, hl⟩, hk⟩, ha⟩, hi⟩, hsql⟩ := hbase.mp ⟨⟨hn, hw⟩, hskip⟩
    refine ⟨⟨⟨⟨⟨⟨hc, hl⟩, ?_⟩, hk⟩, ha⟩, hi⟩, hsql⟩
    rcases hread with hsome | hread
    · obtain ⟨ch, hch⟩ := Option.isSome_iff_exists.mp hsome
      exact readable_of_sqlAdmits hch hsql
    · exact hread
  · intro h
    obtain ⟨⟨⟨⟨⟨⟨hc, hl⟩, hread⟩, hk⟩, ha⟩, hi⟩, hsql⟩ := h
    obtain ⟨⟨hn, hw⟩, hskip⟩ := hbase.mpr ⟨⟨⟨⟨⟨hc, hl⟩, hk⟩, ha⟩, hi⟩, hsql⟩
    exact ⟨⟨hn, hw, .inr hread⟩, hskip⟩

/-- The SQL clause for shared kinds loses no visible event. -/
theorem sharedGated_of_visible (h : eventVisibleToReader row.event r.pubkey = true) (q : EventQuery)
    (hq : q.sharedGatedReader = none) : sharedGatedClause (withSharedGate r f q) row = true := by
  unfold withSharedGate
  split
  · unfold eventVisibleToReader at h
    simp only [Bool.and_eq_true, Bool.not_eq_true'] at h
    have hgate := h.1.2
    unfold isUnsharedGatedEvent at hgate
    unfold sharedGatedClause
    simp only [Option.all_some, Bool.or_eq_true, Bool.not_eq_true', decide_eq_true_eq]
    rw [Bool.and_eq_false_iff, Bool.and_eq_false_iff] at hgate
    rcases hgate with (hkind | hauthor) | hshared
    · exact .inl (.inl hkind)
    · exact .inl (.inr (by simpa using hauthor))
    · right
      have hshared : eventIsShared row.event = true := by simpa using hshared
      unfold eventIsShared at hshared
      rw [Bool.and_eq_true, List.all_eq_true, beq_iff_eq] at hshared
      obtain ⟨hall, hlen⟩ := hshared
      obtain ⟨t, ht⟩ := List.length_eq_one_iff.mp hlen
      have hmem : t ∈ row.event.tags.filter fun t => t.kind == "shared" := by
        rw [ht]
        exact List.mem_singleton.mpr rfl
      have hbuf := hall t hmem
      rw [beq_iff_eq] at hbuf
      unfold tagsContain
      rw [List.any_eq_true]
      refine ⟨t, List.mem_of_mem_filter hmem, ?_⟩
      rw [hbuf]
      decide
  · unfold sharedGatedClause
    rw [hq]
    rfl

theorem sharedGated_queryOf (h : eventVisibleToReader row.event r.pubkey = true) :
    sharedGatedClause (queryOf r f) row = true := by
  refine sharedGated_of_visible h _ ?_
  unfold withChannelScope
  cases extractChannelFromFilter f.toFilter with
  | some ch => rfl
  | none => rfl

/-! ## COUNT row by row -/

/-- Whether a row is counted. -/
def counted (r : Reading) (f : ReadFilter) (row : EventRow) : Bool :=
  !(queryOf r f).matchesNothing && whereClause (queryOf r f) row && !skipped r f
    && (countsInSql r f ||
      (sharedGatedClause (queryOf r f) row && filtersMatch [f.toFilter] row.stored
      && eventVisibleToReader row.event r.pubkey))

def gatesPass (r : Reading) (f : ReadFilter) : Bool :=
  pGatedFiltersAuthorized [f.toFilter] r.pubkey.toHex &&
    engramFiltersAuthorized [f.toFilter] r.pubkey.toHex
    && authorOnlyFiltersAuthorized [f.toFilter] r.pubkey.toHex

/-- The gates let the filter pass, and the database takes the parameters. -/
def answers (r : Reading) (f : ReadFilter) : Bool :=
  gatesPass r f && (skipped r f || (queryOf r f).matchesNothing || (queryOf r f).isBindable)

/-- What the fallback counts among the rows its query selects. -/
def countedInMemory (r : Reading) (f : ReadFilter) (se : StoredEvent) : Bool :=
  filtersMatch [f.toFilter] se && eventVisibleToReader se.event r.pubkey

/-- The rows the fallback fetches. -/
def candidates (rows : List EventRow) (q : EventQuery) : List EventRow :=
  (rows.filter fun row => whereClause q row && sharedGatedClause q row).take
    (COUNT_FALLBACK_CANDIDATE_LIMIT + 1)

theorem queryEventsOn_fallback (rows : List EventRow) (q : EventQuery) :
    queryEventsOn rows (applyCountFallbackLimit q) =
      if q.matchesNothing then some []
      else if q.isBindable then some ((candidates rows q).map EventRow.stored) else none := by
  have hlimit : (applyCountFallbackLimit q).pageLimit =
      (COUNT_FALLBACK_CANDIDATE_LIMIT + 1 : Nat) := by
    show min ((COUNT_FALLBACK_CANDIDATE_LIMIT : Int) + 1) (COUNT_FALLBACK_CANDIDATE_LIMIT + 1) = _
    rw [Int.min_self]
    rfl
  unfold queryEventsOn candidates
  rw [hlimit, decide_eq_true (Int.natCast_nonneg _), Bool.and_true, Int.toNat_natCast]
  rfl

variable {rows : List EventRow}

theorem countP_candidates {q : EventQuery}
    (hlen : (candidates rows q).length ≤ COUNT_FALLBACK_CANDIDATE_LIMIT) :
    ((candidates rows q).map EventRow.stored).countP (countedInMemory r f)
      = rows.countP fun row =>
        whereClause q row && (sharedGatedClause q row && countedInMemory r f row.stored) := by
  unfold candidates at hlen ⊢
  rw [List.length_take] at hlen
  rw [List.take_of_length_le (by omega), List.countP_map, List.countP_filter]
  refine List.countP_congr ?_
  intro row _
  simp only [Function.comp_apply, Bool.and_eq_true]
  constructor
  · intro h
    exact ⟨h.2.1, h.2.2, h.1⟩
  · intro h
    exact ⟨h.2.2, h.1, h.2.1⟩

/-- The rows a query counts, on either path. -/
theorem countByQuery_eq {q : EventQuery} {n : Nat} (h : countByQuery rows r f q = some n) :
    (q.matchesNothing = true ∨ q.isBindable = true) ∧
    n = rows.countP fun row => !q.matchesNothing && whereClause q row
      && (countsInSql r f || (sharedGatedClause q row && countedInMemory r f row.stored)) := by
  unfold countByQuery at h
  by_cases hsql : countsInSql r f = true
  · rw [if_pos hsql] at h
    unfold countEventsOn at h
    by_cases hnone : q.matchesNothing = true
    · rw [if_pos hnone] at h
      rw [← Option.some.inj h, hnone]
      exact ⟨.inl rfl, by simp⟩
    rw [if_neg hnone] at h
    by_cases hbind : q.isBindable = true
    · rw [if_pos hbind] at h
      rw [← Option.some.inj h, hsql, Bool.eq_false_iff.mpr hnone]
      exact ⟨.inr hbind, by simp⟩
    · rw [if_neg hbind] at h
      cases h
  · rw [if_neg hsql, queryEventsOn_fallback] at h
    by_cases hnone : q.matchesNothing = true
    · rw [if_pos hnone] at h
      refine ⟨.inl hnone, ?_⟩
      rw [hnone]
      simpa [countFallbackExceeded] using h.symm
    · rw [if_neg hnone] at h
      by_cases hbind : q.isBindable = true
      · rw [if_pos hbind] at h
        refine ⟨.inr hbind, ?_⟩
        simp only at h
        split at h
        · cases h
        rename_i hbudget
        unfold countFallbackExceeded at hbudget
        rw [decide_eq_true_eq, List.length_map, Nat.not_lt] at hbudget
        rw [← Option.some.inj h, Bool.eq_false_iff.mpr hnone, Bool.eq_false_iff.mpr hsql]
        refine (countP_candidates hbudget).trans ?_
        simp only [Bool.not_false, Bool.true_and, Bool.false_or]
      · rw [if_neg hbind] at h
        cases h

/-- A query that is answered on a small store is answered with the count. -/
theorem countByQuery_some {q : EventQuery} (hq : q.matchesNothing = true ∨ q.isBindable = true)
    (hrows : rows.length ≤ COUNT_FALLBACK_CANDIDATE_LIMIT) :
    ∃ n, countByQuery rows r f q = some n := by
  unfold countByQuery
  rw [queryEventsOn_fallback]
  unfold countEventsOn
  by_cases hnone : q.matchesNothing = true
  · rw [if_pos hnone, if_pos hnone]
    split
    · exact ⟨_, rfl⟩
    · simp [countFallbackExceeded]
  · have hbind : q.isBindable = true := hq.resolve_left hnone
    rw [if_neg hnone, if_neg hnone, if_pos hbind, if_pos hbind]
    split
    · exact ⟨_, rfl⟩
    have hlen : (candidates rows q).length ≤ COUNT_FALLBACK_CANDIDATE_LIMIT := by
      unfold candidates
      rw [List.length_take]
      have := List.length_filter_le (fun row => whereClause q row && sharedGatedClause q row) rows
      omega
    have hbudget : countFallbackExceeded ((candidates rows q).map EventRow.stored).length =
        false := by
      unfold countFallbackExceeded
      rw [List.length_map, decide_eq_false_iff_not, Nat.not_lt]
      exact hlen
    simp only [hbudget, Bool.false_eq_true, if_false]
    exact ⟨_, rfl⟩

/-- COUNT of one filter. -/
theorem handleCount_single (rows : List EventRow) : handleCount rows r [f] =
    if gatesPass r f then if skipped r f then
      some 0 else countByQuery rows r f (queryOf r f) else none := by
  have hloop : countFilters rows r r.accessibleChannels [f] =
      if skipped r f then some 0 else countByQuery rows r f (queryOf r f) := by
    unfold countFilters skipped queryOf readableChannels
    cases extractChannelFromFilter f.toFilter with
    | some ch =>
      cases hallowed : (resolve r r.accessibleChannels ch).1 with
      | true =>
        simp only [hallowed, Bool.not_true, Bool.false_eq_true, if_false]
        cases countByQuery rows r f (countQuery r (resolve r r.accessibleChannels ch).2 f) <;> rfl
      | false =>
        simp only [hallowed, Bool.not_false, if_true]
        rfl
    | none =>
      simp only [Bool.false_eq_true, if_false]
      cases countByQuery rows r f (countQuery r r.accessibleChannels f) <;> rfl
  unfold handleCount gatesPass
  simp only [List.map_cons, List.map_nil]
  rw [hloop]
  cases pGatedFiltersAuthorized [f.toFilter] r.pubkey.toHex with
  | false => rfl
  | true =>
    cases engramFiltersAuthorized [f.toFilter] r.pubkey.toHex with
    | false => rfl
    | true =>
      cases authorOnlyFiltersAuthorized [f.toFilter] r.pubkey.toHex with
      | false => rfl
      | true => rfl

theorem counted_of_skipped (h : skipped r f = true) : counted r f row = false := by
  unfold counted
  rw [h]
  simp

/-- Each row is counted on its own. -/
theorem handleCount_eq {n : Nat} (h : handleCount rows r [f] = some n) :
    answers r f = true ∧ n = rows.countP (counted r f) := by
  rw [handleCount_single] at h
  unfold answers
  by_cases hgates : gatesPass r f = true
  · rw [if_pos hgates] at h
    rw [hgates]
    by_cases hskip : skipped r f = true
    · rw [if_pos hskip] at h
      rw [← Option.some.inj h, hskip]
      refine ⟨rfl, ?_⟩
      rw [List.countP_eq_zero.mpr]
      intro row _
      rw [counted_of_skipped hskip]
      exact Bool.false_ne_true
    · rw [if_neg hskip] at h
      obtain ⟨hq, hn⟩ := countByQuery_eq h
      refine ⟨?_, ?_⟩
      · rcases hq with hq | hq
        · rw [hq]
          simp
        · rw [hq]
          simp
      · rw [hn]
        refine List.countP_congr ?_
        intro row _
        unfold counted countedInMemory
        rw [Bool.eq_false_iff.mpr hskip]
        simp only [Bool.not_false, Bool.and_true, Bool.and_assoc]
        exact Iff.rfl
  · rw [if_neg hgates] at h
    cases h

theorem handleCount_some (h : answers r f = true)
    (hrows : rows.length ≤ COUNT_FALLBACK_CANDIDATE_LIMIT) :
    ∃ n, handleCount rows r [f] = some n := by
  unfold answers at h
  rw [Bool.and_eq_true, Bool.or_eq_true, Bool.or_eq_true] at h
  obtain ⟨hgates, hq⟩ := h
  rw [handleCount_single, if_pos hgates]
  by_cases hskip : skipped r f = true
  · rw [if_pos hskip]
    exact ⟨0, rfl⟩
  rw [if_neg hskip]
  refine countByQuery_some ?_ hrows
  rcases hq with (hs | hq) | hq
  · exact absurd hs hskip
  · exact .inl hq
  · exact .inr hq

/-- A row is counted and delivered alike exactly where the conditions agree. -/
theorem counted_eq_iff : (counted r f row = delivered r f row) ↔ Agrees r f row := by
  have hsel := @selected_eq r f row
  have hone : filtersMatch [f.toFilter] row.stored = filterMatchOne f.toFilter row.stored := by
    unfold filtersMatch
    simp
  have hmatch : commonAdmits r f row = true →
      (filterMatchOne f.toFilter row.stored = true ↔ memoryAdmits f row = true) := by
    intro hc
    unfold commonAdmits at hc
    simp only [Bool.and_eq_true] at hc
    rw [match_eq]
    simp only [Bool.and_eq_true]
    exact ⟨fun h => h.2, fun h => ⟨⟨⟨hc.1.1.2, hc.1.2⟩, hc.2⟩, h⟩⟩
  unfold Agrees counted
  rw [hsel, delivered_eq, hone, Bool.eq_iff_iff]
  simp only [Bool.and_eq_true, Bool.or_eq_true]
  by_cases hc : commonAdmits r f row = true
  · have hm := hmatch hc
    by_cases hsql : countsInSql r f = true
    · rw [if_pos hsql]
      -- the fast path counts gated kinds only where the filter pins the reader down
      have hvis : memoryAdmits f row = true → eventVisibleToReader row.event r.pubkey = true := by
        intro hmem
        have hpath := hsql
        unfold countsInSql at hpath
        simp only [Bool.and_eq_true, Bool.or_eq_true, Bool.not_eq_true', Bool.and_eq_false_iff,
          Bool.not_eq_false'] at hpath
        obtain ⟨⟨⟨_, hauthor⟩, hresult⟩, hshared⟩ := hpath
        exact visible_of_match (hm.mpr hmem) hauthor hshared hresult
      constructor
      · intro h _
        refine ⟨?_, ?_⟩
        · intro hs
          exact (h.mp ⟨⟨hc, hs⟩, .inl hsql⟩).1.2
        · intro hmem
          exact (h.mpr ⟨⟨hc, hmem⟩, hvis hmem⟩).1.2
      · intro h
        refine ⟨?_, ?_⟩
        · intro hcount
          have hmem := (h hc).mp hcount.1.2
          exact ⟨⟨hc, hmem⟩, hvis hmem⟩
        · intro hdel
          exact ⟨⟨hc, (h hc).mpr hdel.1.2⟩, .inl hsql⟩
    · rw [if_neg hsql]
      constructor
      · intro h _ hmem hv
        exact (h.mpr ⟨⟨hc, hmem⟩, hv⟩).1.2
      · intro h
        refine ⟨?_, ?_⟩
        · intro hcount
          rcases hcount.2 with hfast | ⟨⟨_, hfm⟩, hv⟩
          · exact absurd hfast hsql
          · exact ⟨⟨hc, hm.mp hfm⟩, hv⟩
        · intro hdel
          exact ⟨⟨hc, h hc hdel.1.2 hdel.2⟩,
            .inr ⟨⟨sharedGated_queryOf hdel.2, hm.mpr hdel.1.2⟩, hdel.2⟩⟩
  · constructor
    · intro _ hc'
      exact absurd hc' hc
    · intro _
      exact ⟨fun h => absurd h.1.1 hc, fun h => absurd h.1.1 hc⟩

/-- **When COUNT is right.** For any set of rows: the number is right on every store made of
them, if and only if each of them is one SQL and memory agree about. -/
theorem count_right_iff (r : Reading) (f : ReadFilter) (R : EventRow → Prop) :
    (∀ rows : List EventRow, (∀ row ∈ rows, R row) → ∀ n, handleCount rows r [f] = some n →
      n = rows.countP (delivered r f)) ↔
    (answers r f = true → ∀ row, R row → Agrees r f row) := by
  constructor
  · intro h hans row hrow
    obtain ⟨n, hn⟩ := @handleCount_some r f [row] hans (by simp [COUNT_FALLBACK_CANDIDATE_LIMIT])
    have hcount := (handleCount_eq hn).2
    have hright := h [row] (fun row' hmem => by rw [List.mem_singleton.mp hmem]; exact hrow) n hn
    rw [hcount, List.countP_singleton, List.countP_singleton] at hright
    refine counted_eq_iff.mp ?_
    cases hc : counted r f row <;> cases hd : delivered r f row <;> simp [hc, hd] at hright ⊢
  · intro h rows hrows n hn
    obtain ⟨hans, hcount⟩ := handleCount_eq hn
    rw [hcount]
    refine List.countP_congr ?_
    intro row hmem
    rw [counted_eq_iff.mpr (h hans row (hrows row hmem))]

/-- An empty list of ids is no list to SQL: every row of the kind is counted. -/
theorem not_count_right :
    ¬ ∀ (r : Reading) (f : ReadFilter) (rows : List EventRow) (n : Nat),
      handleCount rows r [f] = some n → n = rows.countP (delivered r f) := by
  intro h
  let community : CommunityId := ⟨.ofNat 16 1⟩
  let channel : Uuid := .ofNat 16 2
  let r : Reading := ⟨community, .ofNat 32 3, [channel], none, fun _ => true⟩
  let f : ReadFilter := { kinds := some [9], ids := some [] }
  let row : EventRow :=
    ⟨community, ⟨⟨.ofNat 32 4, .ofNat 32 5, 1700000000, 9, [⟨["h", channel.toString], by simp⟩]⟩,
      some channel⟩, none, [], false⟩
  have hcount : handleCount [row] r [f] = some 1 := by decide
  have hdelivered : [row].countP (delivered r f) = 0 := by decide
  have hwrong := h r f [row] 1 hcount
  rw [hdelivered] at hwrong
  cases hwrong

/-! ## Filters without the pushed tags -/

/-- No empty list, timestamps `chrono` can represent, and no `#h`, `#p`, `#d` or `#e`. -/
structure Plain (f : ReadFilter) : Prop where
  ids : f.ids ≠ some []
  authors : f.authors ≠ some []
  since : ∀ s, f.since = some s → s ≤ 8210266876799
  until' : ∀ u, f.until' = some u → u ≤ 8210266876799
  tags : ∀ kv ∈ f.genericTags, kv.2 ≠ [] ∧ kv.1.toString ≠ "h" ∧ kv.1.toString ≠ "p" ∧
    kv.1.toString ≠ "d" ∧ kv.1.toString ≠ "e"

theorem fromTimestamp_asI64 {s : Nat} (h : s ≤ 8210266876799) :
    fromTimestamp (asI64 s) = some (s : Int) := by
  unfold fromTimestamp asI64
  rw [if_pos (by omega), if_pos (by omega)]

theorem genericTag_of_plain (h : Plain f) {key : SingleLetterTag}
    (hkey : key.toString ∈ ["h", "p", "d", "e"]) : f.genericTag key = none := by
  unfold Filter.genericTag
  rw [Option.map_eq_none_iff, List.find?_eq_none]
  intro kv hkv heq
  have hne := (h.tags kv hkv).2
  rw [of_decide_eq_true heq] at hne
  simp only [List.mem_cons, List.not_mem_nil, or_false] at hkey
  rcases hkey with hk | hk | hk | hk
  · exact hne.1 hk
  · exact hne.2.1 hk
  · exact hne.2.2.1 hk
  · exact hne.2.2.2 hk

/-- SQL's readings of a plain filter are its time bounds. -/
theorem sqlAdmits_of_plain (h : Plain f) : sqlAdmits r f row =
    (f.since.all (fun s => decide (s ≤ row.event.createdAt)) && f.until'.all fun u =>
      decide (row.event.createdAt ≤ u)) := by
  have hh : f.genericTag .h = none := genericTag_of_plain h (by decide)
  have hp : f.genericTag .p = none := genericTag_of_plain h (by decide)
  have hd : f.genericTag .d = none := genericTag_of_plain h (by decide)
  have he : f.genericTag .e = none := genericTag_of_plain h (by decide)
  have hchannel : extractChannelIdFromFilter f.toFilter = none := by
    unfold extractChannelIdFromFilter
    rw [List.findSome?_eq_none_iff]
    intro kv hkv
    rw [if_neg (h.tags kv hkv).2.1]
  have hskip : skipped r f = false := by
    unfold skipped extractChannelFromFilter
    rw [hh]
  have hsince : (baseQuery r f).since.all (fun s => decide ((row.event.createdAt : Int) ≥ s))
      = f.since.all fun s => decide (s ≤ row.event.createdAt) := by
    unfold baseQuery filterToQueryParams
    cases hs : f.since with
    | none => rfl
    | some s => simp [fromTimestamp_asI64 (h.since s hs)]
  have huntil : (baseQuery r f).until'.all (fun u => decide ((row.event.createdAt : Int) ≤ u))
      = f.until'.all fun u => decide (row.event.createdAt ≤ u) := by
    unfold baseQuery filterToQueryParams
    cases hu : f.until' with
    | none => rfl
    | some u => simp [fromTimestamp_asI64 (h.until' u hu)]
  unfold sqlAdmits
  simp only
  rw [hskip, hsince, huntil]
  unfold baseQuery filterToQueryParams
  simp only [hp, he, hd, hchannel, ite_self, Option.all_none, Bool.not_false, Bool.true_and,
    Bool.and_true]

theorem since_all (o : Option Timestamp) (t : Timestamp) :
    o.all (fun s => !decide (t < s)) = o.all fun s => decide (s ≤ t) := by
  cases o with
  | none => rfl
  | some s => rw [Option.all_some, Option.all_some, ← decide_not, decide_eq_decide.mpr Nat.not_lt]

/-- The in-memory match of a plain filter: its time bounds and its tags. -/
theorem memoryAdmits_of_plain (h : Plain f) : memoryAdmits f row =
    (f.since.all (fun s => decide (s ≤ row.event.createdAt)) && f.until'.all (fun u =>
      decide (row.event.createdAt ≤ u))
      && f.genericTags.all fun kv => tagConstraintMatches row.stored kv.1 kv.2) := by
  have hids : f.ids.all (fun ids => !ids.isEmpty) = true := by
    have hne := h.ids
    match f.ids, hne with
    | none, _ => rfl
    | some [], hne => exact absurd rfl hne
    | some (a :: l), _ => rfl
  have hauthors : f.authors.all (fun as => !as.isEmpty) = true := by
    have hne := h.authors
    match f.authors, hne with
    | none, _ => rfl
    | some [], hne => exact absurd rfl hne
    | some (a :: l), _ => rfl
  have huntil : f.until'.all (fun u => !decide (row.event.createdAt > u))
      = f.until'.all fun u => decide (row.event.createdAt ≤ u) := by
    cases f.until' with
    | none => rfl
    | some u => rw [Option.all_some, Option.all_some, ← decide_not, decide_eq_decide.mpr Nat.not_lt]
  unfold memoryAdmits
  rw [hids, hauthors, since_all, huntil]
  simp only [Bool.true_and]

/-- **Plain filters are counted right**, on every store. -/
theorem agrees_of_plain (h : Plain f) : Agrees r f row := by
  intro _
  rw [sqlAdmits_of_plain h, memoryAdmits_of_plain h]
  split
  · rename_i hsql
    -- a tag that is not pushed down keeps the filter off the fast path
    have htags : f.genericTags = [] := by
      unfold countsInSql at hsql
      simp only [Bool.and_eq_true] at hsql
      have hpush := hsql.1.1.1
      unfold filterFullyPushable at hpush
      rw [Bool.and_eq_true, List.all_eq_true] at hpush
      rw [List.eq_nil_iff_forall_not_mem]
      intro kv hkv
      have hone := hpush.1 kv hkv
      obtain ⟨hne, hh, hp, hd, he⟩ := h.tags kv hkv
      unfold tagPushable at hone
      rw [if_neg hh, if_neg hp, if_neg hd, if_neg he, List.isEmpty_iff] at hone
      exact hne hone
    rw [htags, List.all_nil, Bool.and_true]
  · intro hm _
    exact (Bool.and_eq_true_iff.mp hm).1

end Pkzz.Relay
