import Pkzz.Relay.Count
import Pkzz.Relay.Delivery

/-!
# History and live matching

The rows that `buzz-db`'s insert path makes of an event, and the WHERE clause that REQ makes
of a filter: every field of the filter is read off another column (the first `d` tag, the
normalized mention rows, the timestamp as `i64`, the channel the relay resolved), while live
fan-out matches the event itself.

A row that the filter matches and the reader may see is selected exactly where these columns
say the same as the event (`pushdown_iff`).
-/

namespace Pkzz.Relay

open Pkzz.Core Pkzz.Lib

namespace Pushdown

/-! ## The insert path -/

def KIND_AUTH : Nat := 22242

def isEphemeral (kind : Nat) : Bool := 20000 ≤ kind && kind ≤ 29999

def D_TAG_MAX_LEN : Nat := 1024

/-- A p-tag value `insert_mentions` takes. -/
def isPubkeyHex (pk : String) : Bool :=
  decide (Str.len pk = 64) && pk.toList.all Str.isAsciiHexdigit

/-- The `pubkey_hex` of the rows `insert_mentions` writes. -/
def insertMentions (event : Event) : List String :=
  let pTags := event.tags.filterMap fun tag =>
    match tag.buf with
    | "p" :: value :: _ => some value
    | _ => none
  (pTags.filter isPubkeyHex).map Str.toAsciiLowercase

/-- Who inserts: the functions of `buzz-db`, which insert the mentions afterwards, or
`persist_command_event`, which does not. -/
inductive InsertPath where
  | database
  | command
  deriving DecidableEq

/-- What an insert path does not store. -/
def refuses (path : InsertPath) (event : Event) : Bool :=
  match path with
  | .database => event.kind.toNat == KIND_AUTH || isEphemeral event.kind.toNat
  | .command => (extractDTag event).any fun d => decide (Str.len d > D_TAG_MAX_LEN)

/-- The mention rows of an event. -/
def mentionRows (path : InsertPath) (event : Event) : List String :=
  match path with
  | .database => insertMentions event
  | .command => []

/-- An `events` row as it was inserted, with its own `created_at` column. -/
structure InsertedRow extends EventRow where
  createdAt : Int

/-- `insert_event` with `insert_mentions`, and `persist_command_event`; `none` where nothing
is stored. -/
def insertRow (path : InsertPath) (community : CommunityId) (stored : StoredEvent) :
    Option InsertedRow :=
  if refuses path stored.event then none
  else if !stored.event.tags.all (fun tag => tag.buf.all storable) then none
  else
    match fromTimestamp (asI64 stored.event.createdAt) with
    | none => none
    | some createdAt =>
      if !bindable createdAt then none
      else
        some
          { communityId := community
            stored
            dTag := extractDTag stored.event
            mentions := mentionRows path stored.event
            deleted := false
            createdAt }

/-! ## The query -/

/-- The WHERE clause, read on the row's own timestamp. -/
def whereClauseOn (q : EventQuery) (row : InsertedRow) : Bool :=
  whereClause { q with since := none, until' := none } row.toEventRow
    && q.since.all (fun s => decide (row.createdAt ≥ s))
    && q.until'.all fun u => decide (row.createdAt ≤ u)

/-- The query runs and the row satisfies its WHERE clause. -/
def selects (q : EventQuery) (row : InsertedRow) : Bool :=
  !q.matchesNothing && (q.isBindable && decide (0 ≤ q.pageLimit)) && whereClauseOn q row

/-- The query REQ makes of one filter. -/
def reqQuery (f : ReadFilter) (channelId : Option Uuid) (community : CommunityId)
    (accessibleChannels : List Uuid) : EventQuery :=
  Request.applyAccessScopeToQuery
    (filterToQueryParams f channelId community) channelId accessibleChannels

/-- `per_filter_channel` of a filter in a REQ. -/
def perFilterChannel (filters : List Filter) (f : Filter) : Option Uuid :=
  (extractChannelFromFilter f).or (extractChannelIdFromFilters filters)

/-! ## Where the columns say what the event says -/

/-- **When a matching event is selected.** Each field speaks of one column. -/
structure ColumnsAgree (path : InsertPath) (f : ReadFilter) (channelId : Option Uuid)
    (stored : StoredEvent) : Prop where
  /-- The event is in the channel the filter was resolved to. -/
  channel : ∀ c, channelId = some c → stored.channelId = some c
  /-- A single `#p` value is 64 hex digits, and mentions are inserted. -/
  mention : ∀ v, f.genericTag SingleLetterTag.p = some [v] → path = .database ∧ isPubkeyHex v = true
  /-- Where `#d` is pushed down, it has the value of the first d tag. -/
  dTag : isNip33Only f.toFilter = true → ∀ vs, f.genericTag SingleLetterTag.d = some vs →
    ∃ v ∈ vs, extractDTag stored.event = some v
  /-- The bounds, as `i64`, are on the same side as before. -/
  since : ∀ s t, f.since = some s → fromTimestamp (asI64 s) = some t →
    bindable t = true ∧ t ≤ asI64 stored.event.createdAt
  til : ∀ u t, f.until' = some u → fromTimestamp (asI64 u) = some t →
    bindable t = true ∧ asI64 stored.event.createdAt ≤ t
  /-- The values that are pushed down are texts the database takes. -/
  dTexts : isNip33Only f.toFilter = true → ∀ vs, f.genericTag SingleLetterTag.d = some vs →
    ∀ v ∈ vs, storable v = true
  eTexts : ∀ vs, f.genericTag SingleLetterTag.e = some vs → ∀ v ∈ vs, storable v = true
  /-- The limit, as `i64`, is one the database takes. -/
  limit : ∀ l, f.limit = some l → 0 ≤ asI64 l

/-! ## Mentions -/

theorem isAsciiHexdigit_toLower (c : Char) :
    Str.isAsciiHexdigit c.toLower = Str.isAsciiHexdigit c := by
  have hall : ∀ n < 128, Str.isAsciiHexdigit (Char.ofNat n).toLower =
      Str.isAsciiHexdigit (Char.ofNat n) := by
    decide
  by_cases h : c.toNat < 128
  · have hc := hall c.toNat h
    rwa [Char.ofNat_toNat] at hc
  -- only ASCII letters are changed
  have hsame : c.toLower = c := by
    unfold Char.toLower
    rw [dif_neg]
    intro hle
    have hz : c.toNat ≤ 90 := UInt32.le_iff_toNat_le.mp hle.2
    omega
  rw [hsame]

theorem isPubkeyHex_iff {pk : String} :
    isPubkeyHex pk = true ↔ pk.toList.length = 64 ∧
      ∀ c ∈ pk.toList, Str.isAsciiHexdigit c = true := by
  unfold isPubkeyHex
  rw [Bool.and_eq_true, decide_eq_true_eq, List.all_eq_true]
  refine and_congr_left fun hhex => ?_
  have hascii : ∀ c ∈ pk.toList, c.toNat < 128 := by
    intro c hc
    have := Str.toNat_le_of_isAsciiHexdigit (hhex c hc)
    omega
  rw [Str.len_ascii hascii]

theorem isPubkeyHex_toAsciiLowercase (pk : String) :
    isPubkeyHex (Str.toAsciiLowercase pk) = isPubkeyHex pk := by
  rw [Bool.eq_iff_iff, isPubkeyHex_iff, isPubkeyHex_iff]
  unfold Str.toAsciiLowercase
  rw [String.toList_ofList, List.length_map, List.forall_mem_map]
  simp only [isAsciiHexdigit_toLower]

theorem mem_tagContents {event : Event} {kind v : String} :
    v ∈ event.tagContents kind ↔ ∃ tag ∈ event.tags, ∃ rest, tag.buf = kind :: v :: rest := by
  unfold Event.tagContents
  rw [List.mem_filterMap]
  constructor
  · rintro ⟨tag, htag, hv⟩
    obtain ⟨hmem, hkind⟩ := List.mem_filter.mp htag
    refine ⟨tag, hmem, ?_⟩
    obtain ⟨buf, hne⟩ := tag
    unfold Tag.kind at hkind
    unfold Tag.content at hv
    match buf, hne with
    | a :: b :: rest, _ =>
      simp only [List.head_cons, beq_iff_eq] at hkind
      simp only [List.getElem?_cons_succ, List.getElem?_cons_zero, Option.some.injEq] at hv
      subst hkind hv
      exact ⟨rest, rfl⟩
    | [a], _ => simp at hv
  · rintro ⟨tag, hmem, rest, hbuf⟩
    obtain ⟨buf, hne⟩ := tag
    simp only at hbuf
    subst hbuf
    exact ⟨_, List.mem_filter.mpr ⟨hmem, by simp [Tag.kind]⟩, rfl⟩

/-- A mention of one of the event's p values is there if the value is a pubkey. -/
theorem mem_insertMentions {event : Event} {v : String} (hv : v ∈ event.tagContents "p") :
    Str.toAsciiLowercase v ∈ insertMentions event ↔ isPubkeyHex v = true := by
  unfold insertMentions
  rw [List.mem_map]
  constructor
  · rintro ⟨w, hw, heq⟩
    have hhex := (List.mem_filter.mp hw).2
    rw [← isPubkeyHex_toAsciiLowercase, ← heq, isPubkeyHex_toAsciiLowercase]
    exact hhex
  · intro hhex
    obtain ⟨tag, htag, rest, hbuf⟩ := mem_tagContents.mp hv
    refine ⟨v, List.mem_filter.mpr ⟨List.mem_filterMap.mpr ⟨tag, htag, ?_⟩, hhex⟩, rfl⟩
    simp [hbuf]

/-! ## Field by field -/

variable {f : ReadFilter} {stored : StoredEvent} {channelId : Option Uuid} {community : CommunityId}
  {accessible : List Uuid} {path : InsertPath} {row : InsertedRow}

/-- JSON containment never loses a tag. -/
theorem tagsContain_of_mem {event : Event} {kind v : String} (h : v ∈ event.tagContents kind) :
    tagsContain event.tags kind v = true := by
  obtain ⟨tag, htag, rest, hbuf⟩ := mem_tagContents.mp h
  unfold tagsContain
  rw [List.any_eq_true]
  refine ⟨tag, htag, ?_⟩
  rw [hbuf]
  simp

theorem eTags_clause (h : filterMatchOne f.toFilter stored = true) :
    (filterToQueryParams f channelId community).eTags.all
      (fun es => es.isEmpty || es.any fun v => tagsContain stored.event.tags "e" v) = true := by
  unfold filterToQueryParams
  cases hvs : f.genericTag SingleLetterTag.e with
  | none => rfl
  | some vs =>
    cases vs with
    | nil => rfl
    | cons v rest =>
      obtain ⟨w, hw, hmem⟩ := exists_value_of_constraint (by decide) (tagConstraint_of_match h hvs)
      simp only [Option.all_some, Bool.or_eq_true]
      exact .inr (List.any_eq_true.mpr ⟨w, hw, tagsContain_of_mem hmem⟩)

theorem storable_of_isPubkeyHex {v : String} (h : isPubkeyHex v = true) : storable v = true := by
  unfold storable
  rw [Bool.not_eq_true', Bool.eq_false_iff]
  intro hmem
  exact absurd ((isPubkeyHex_iff.mp h).2 _ (List.contains_iff_mem.mp hmem)) (by decide)

theorem pTagHex_clause (h : filterMatchOne f.toFilter stored = true) :
    (filterToQueryParams f channelId community).pTagHex.all
        (fun p => (mentionRows path stored.event).contains (Str.toAsciiLowercase p)) = true ↔
      ∀ v, f.genericTag SingleLetterTag.p = some [v] → path = .database ∧ isPubkeyHex v = true := by
  unfold filterToQueryParams
  cases hvs : f.genericTag SingleLetterTag.p with
  | none => simp
  | some vs =>
    rcases vs with _ | ⟨v, _ | ⟨w, rest⟩⟩
    · simp
    · obtain ⟨w, hw, hmem⟩ := exists_value_of_constraint (by decide) (tagConstraint_of_match h hvs)
      rw [List.mem_singleton.mp hw] at hmem
      simp only [Option.all_some, List.contains_iff_mem, Option.some.injEq, List.cons.injEq,
        and_true, forall_eq']
      cases path with
      | database => simpa [mentionRows] using mem_insertMentions hmem
      | command => simp [mentionRows]
    · simp

theorem dTag_clause (h : filterMatchOne f.toFilter stored = true) :
    (match (filterToQueryParams f channelId community).dTag with
      | some d => decide (extractDTag stored.event = some d)
      | none => (filterToQueryParams f channelId community).dTags.all fun ds =>
        ds.isEmpty || ds.any fun d => decide (extractDTag stored.event = some d)) = true ↔
      (isNip33Only f.toFilter = true → ∀ vs, f.genericTag SingleLetterTag.d = some vs →
        ∃ v ∈ vs, extractDTag stored.event = some v) := by
  unfold filterToQueryParams
  cases hkinds : isNip33Only f.toFilter with
  | false => simp
  | true =>
    cases hvs : f.genericTag SingleLetterTag.d with
    | none => simp
    | some vs =>
      rcases vs with _ | ⟨v, _ | ⟨w, rest⟩⟩
      · obtain ⟨w, hw, _⟩ := exists_value_of_constraint (by decide) (tagConstraint_of_match h hvs)
        cases hw
      · simp
      · simp

/-- The texts of the query. -/
theorem textsStorable_iff : (filterToQueryParams f channelId community).textsStorable = true ↔
    (∀ v, f.genericTag SingleLetterTag.p = some [v] → storable v = true)
      ∧ (isNip33Only f.toFilter = true → ∀ vs, f.genericTag SingleLetterTag.d = some vs → ∀ v ∈ vs,
        storable v = true)
      ∧ ∀ vs, f.genericTag SingleLetterTag.e = some vs → ∀ v ∈ vs, storable v = true := by
  have hp : (filterToQueryParams f channelId community).pTagHex.all storable = true ↔
      ∀ v, f.genericTag SingleLetterTag.p = some [v] → storable v = true := by
    unfold filterToQueryParams
    match f.genericTag SingleLetterTag.p with
    | none => simp
    | some [] => simp
    | some [v] => simp
    | some (v :: w :: rest) => simp
  have hd : (filterToQueryParams f channelId community).dTag.all storable = true
      ∧ (filterToQueryParams f channelId community).dTags.all (fun ds => ds.all storable) = true ↔
      (isNip33Only f.toFilter = true → ∀ vs, f.genericTag SingleLetterTag.d = some vs →
        ∀ v ∈ vs, storable v = true) := by
    unfold filterToQueryParams
    cases isNip33Only f.toFilter with
    | false => simp
    | true =>
      match f.genericTag SingleLetterTag.d with
      | none => simp
      | some [] => simp
      | some [v] => simp
      | some (v :: w :: rest) => simp
  have he : (filterToQueryParams f channelId community).eTags.all (fun es => es.all storable) =
    true ↔
      ∀ vs, f.genericTag SingleLetterTag.e = some vs → ∀ v ∈ vs, storable v = true := by
    unfold filterToQueryParams
    match f.genericTag SingleLetterTag.e with
    | none => simp
    | some [] => simp
    | some (v :: rest) => simp
  unfold EventQuery.textsStorable
  simp only [Bool.and_eq_true]
  constructor
  · rintro ⟨⟨⟨h₁, h₂⟩, h₃⟩, h₄⟩
    exact ⟨hp.mp h₁, hd.mp ⟨h₂, h₃⟩, he.mp h₄⟩
  · rintro ⟨h₁, h₂, h₃⟩
    exact ⟨⟨⟨hp.mpr h₁, (hd.mpr h₂).1⟩, (hd.mpr h₂).2⟩, he.mpr h₃⟩

/-- A bound of the query, where the translation keeps it. -/
theorem bound_clause {bound : Option Nat} {p : Int → Bool} :
    ((bound.bind fun s => fromTimestamp (asI64 s)).all p = true) ↔
      ∀ s t, bound = some s → fromTimestamp (asI64 s) = some t → p t = true := by
  constructor
  · rintro h s t rfl ht
    rw [Option.bind_some, ht] at h
    exact h
  · intro h
    cases hb : bound with
    | none => rfl
    | some s =>
      rw [Option.bind_some]
      cases ht : fromTimestamp (asI64 s) with
      | none => rfl
      | some t => exact h s t hb ht

/-- What a stored event's row holds. -/
theorem insertRow_some (h : insertRow path community stored = some row) :
    row.communityId = community ∧ row.stored = stored ∧ row.dTag = extractDTag stored.event
      ∧ row.mentions = mentionRows path stored.event ∧ row.deleted = false
      ∧ row.createdAt = asI64 stored.event.createdAt := by
  unfold insertRow at h
  split at h
  · cases h
  split at h
  · cases h
  split at h
  · cases h
  rename_i t ht
  split at h
  · cases h
  cases h
  refine ⟨rfl, rfl, rfl, rfl, rfl, ?_⟩
  unfold fromTimestamp at ht
  split at ht
  · exact (Option.some.inj ht).symm
  · cases ht

/-! ## The exact condition -/

/-- The access scope adds nothing for an event it admits. -/
theorem whereClauseOn_reqQuery (hreadable : row.channelId.all accessible.contains = true) :
    whereClauseOn (reqQuery f channelId community accessible) row
      = whereClauseOn (filterToQueryParams f channelId community) row := by
  unfold reqQuery Request.applyAccessScopeToQuery
  split
  · have hscope := @where_channelIds row.toEventRow
      { filterToQueryParams f channelId community with since := none, until' := none }
        rfl accessible
    unfold readable at hscope
    rw [hreadable, Bool.and_true] at hscope
    unfold whereClauseOn
    rw [hscope]
  · rfl

/-- The WHERE clause on the row of a matching event, reduced to what is not the match again. -/
theorem whereClauseOn_iff (hmatch : filterMatchOne f.toFilter stored = true)
    (hreadable : stored.channelId.all accessible.contains = true)
    (hrow : insertRow path community stored = some row) :
    whereClauseOn (reqQuery f channelId community accessible) row = true ↔
      (∀ v, f.genericTag SingleLetterTag.p = some [v] → path = .database ∧ isPubkeyHex v = true)
      ∧ (∀ c, channelId = some c → stored.channelId = some c)
      ∧ (isNip33Only f.toFilter = true → ∀ vs, f.genericTag SingleLetterTag.d = some vs →
          ∃ v ∈ vs, extractDTag stored.event = some v)
      ∧ (∀ s t, f.since = some s → fromTimestamp (asI64 s) = some t →
        t ≤ asI64 stored.event.createdAt)
      ∧ (∀ u t, f.until' = some u → fromTimestamp (asI64 u) = some t →
        asI64 stored.event.createdAt ≤ t) := by
  obtain ⟨hcommunity, hstored, hdtag, hmentions, hdeleted, hcreated⟩ := insertRow_some hrow
  have hevent : row.toEventRow.event = stored.event := by rw [EventRow.event, hstored]
  have hchannel : row.toEventRow.channelId = stored.channelId := by rw [EventRow.channelId, hstored]
  -- what the match already says
  have hm := hmatch
  rw [show filterMatchOne f.toFilter stored =
    filterMatchOne f.toFilter row.toEventRow.stored by rw [hstored], match_eq, hevent] at hm
  simp only [Bool.and_eq_true] at hm
  obtain ⟨⟨⟨hkinds, hauthors⟩, hids⟩, _⟩ := hm
  rw [← authors_clause channelId community, Bool.and_eq_true] at hauthors
  rw [← ids_clause channelId community] at hids
  have hks : f.kinds.all (fun ks => ks.isEmpty || ks.contains stored.event.kind) = true := by
    have := kinds_clause (f := f) stored.event.kind
    rw [hkinds, Bool.and_eq_true] at this
    exact this.2
  rw [← @pTagHex_clause f stored channelId community path hmatch,
    ← @dTag_clause f stored channelId community hmatch]
  have hsince := @bound_clause f.since fun t => decide (asI64 stored.event.createdAt ≥ t)
  have huntil := @bound_clause f.until' fun t => decide (asI64 stored.event.createdAt ≤ t)
  simp only [decide_eq_true_eq] at hsince huntil
  rw [← hsince, ← huntil, whereClauseOn_reqQuery (by rw [hchannel]; exact hreadable)]
  unfold whereClauseOn whereClause
  rw [hevent, hchannel, hdtag, hmentions, hdeleted, hcommunity, hcreated]
  have hch : (filterToQueryParams f channelId community).channelId.all
      (fun ch => decide (stored.channelId = some ch)) = true ↔ ∀ c, channelId = some c →
        stored.channelId = some c := by
    show channelId.all _ = true ↔ _
    cases channelId <;> simp
  rw [← hch]
  simp only [Bool.and_eq_true]
  constructor
  · rintro ⟨⟨⟨⟨⟨⟨⟨⟨⟨⟨⟨⟨⟨⟨_, _⟩, hp⟩, hc⟩, _⟩, _⟩, _⟩, _⟩, _⟩, _⟩, _⟩, _⟩, hd⟩, hsi⟩, hun⟩
    exact ⟨hp, hc, hd, hsi, hun⟩
  · rintro ⟨hp, hc, hd, hsi, hun⟩
    exact ⟨⟨⟨⟨⟨⟨⟨⟨⟨⟨⟨⟨⟨⟨by simp [filterToQueryParams], rfl⟩, hp⟩, hc⟩, rfl⟩, hks⟩, hauthors.1⟩,
      hauthors.2⟩, hids⟩, eTags_clause hmatch⟩, rfl⟩, rfl⟩, hd⟩, hsi⟩, hun⟩

/-- The access scope leaves alone what decides whether the query runs. -/
theorem reqQuery_checks :
    (reqQuery f channelId community accessible).matchesNothing =
    (filterToQueryParams f channelId community).matchesNothing
      ∧ (reqQuery f channelId community accessible).isBindable =
        (filterToQueryParams f channelId community).isBindable
      ∧ (reqQuery f channelId community accessible).pageLimit =
        (filterToQueryParams f channelId community).pageLimit := by
  unfold reqQuery Request.applyAccessScopeToQuery
  split <;> exact ⟨rfl, rfl, rfl⟩

theorem isBindable_iff : (filterToQueryParams f channelId community).isBindable = true ↔
    ((∀ s t, f.since = some s → fromTimestamp (asI64 s) = some t → bindable t = true)
      ∧ ∀ u t, f.until' = some u → fromTimestamp (asI64 u) = some t → bindable t = true)
      ∧ (filterToQueryParams f channelId community).textsStorable = true := by
  rw [← @bound_clause f.since bindable, ← @bound_clause f.until' bindable]
  unfold EventQuery.isBindable
  rw [Bool.and_eq_true, Bool.and_eq_true]
  exact Iff.rfl

/-- The limit of the query is the filter's, clipped from above only. -/
theorem pageLimit_nonneg_iff : 0 ≤ (filterToQueryParams f channelId community).pageLimit ↔
    ∀ l, f.limit = some l → 0 ≤ asI64 l := by
  unfold EventQuery.pageLimit filterToQueryParams
  cases f.limit with
  | none => simp [DEFAULT_MAX_PAGE_LIMIT]
  | some l => simp [DEFAULT_MAX_PAGE_LIMIT]

/-- A filter that matches an event names kinds, if it has any. -/
theorem matchesNothing_of_match (h : filterMatchOne f.toFilter stored = true) :
    (filterToQueryParams f channelId community).matchesNothing = false := by
  rw [matchesNothing_eq]
  cases hkinds : f.kinds with
  | none => rfl
  | some ks =>
    have hmem := kind_mem_of_match h hkinds
    cases ks with
    | nil => cases hmem
    | cons k ks => rfl

/-- **When history has the event.** Of a stored event that the filter matches and the access
scope admits, the query of REQ selects the row if and only if its columns agree. -/
theorem pushdown_iff (f : ReadFilter) (channelId : Option Uuid) (community : CommunityId)
    (accessible : List Uuid) (path : InsertPath) (stored : StoredEvent) (row : InsertedRow)
    (hmatch : filtersMatch [f.toFilter] stored = true)
    (hreadable : stored.channelId.all accessible.contains = true)
    (hrow : insertRow path community stored = some row) :
    selects (reqQuery f channelId community accessible) row = true ↔
      ColumnsAgree path f channelId stored := by
  have hone : filterMatchOne f.toFilter stored = true := by
    unfold filtersMatch at hmatch
    simpa using hmatch
  obtain ⟨hnothing, hbindable, hlimit⟩ := @reqQuery_checks f channelId community accessible
  unfold selects
  rw [hnothing, hbindable, hlimit, matchesNothing_of_match hone]
  simp only [Bool.not_false, Bool.true_and, Bool.and_eq_true, decide_eq_true_eq]
  rw [isBindable_iff, textsStorable_iff, pageLimit_nonneg_iff,
    whereClauseOn_iff hone hreadable hrow]
  constructor
  · rintro ⟨⟨⟨⟨hbs, hbu⟩, _, hdt, het⟩, hl⟩, hp, hc, hd, hs, hu⟩
    exact
      { channel := hc
        mention := hp
        dTag := hd
        since := fun s t h ht => ⟨hbs s t h ht, hs s t h ht⟩
        til := fun u t h ht => ⟨hbu u t h ht, hu u t h ht⟩
        dTexts := hdt
        eTexts := het
        limit := hl }
  · intro h
    refine ⟨⟨⟨⟨?_, ?_⟩, ?_, h.dTexts, h.eTexts⟩, h.limit⟩, h.mention, h.channel, h.dTag, ?_, ?_⟩
    · exact fun s t hs ht => (h.since s t hs ht).1
    · exact fun u t hu ht => (h.til u t hu ht).1
    · -- a pubkey is a text the database takes
      exact fun v hv => storable_of_isPubkeyHex (h.mention v hv).2
    · exact fun s t hs ht => (h.since s t hs ht).2
    · exact fun u t hu ht => (h.til u t hu ht).2

/-- A note that mentions somebody, and a filter for these mentions. -/
def someMention : StoredEvent :=
  ⟨⟨.ofNat 32 5, .ofNat 32 6, 1700000000, 1, [⟨["p", FixedBytes.toHex (.ofNat 32 3)], by simp⟩]⟩,
    none⟩

def mentionsOf (pk : PublicKey) : ReadFilter :=
  { kinds := some [1], genericTags := [(SingleLetterTag.p, [pk.toHex])] }

/-- The mention is found through its row of `event_mentions`. -/
theorem pushdown_iff_mention : ∃ row, insertRow .database ⟨.ofNat 16 2⟩ someMention = some row
    ∧ selects (reqQuery (mentionsOf (.ofNat 32 3)) none ⟨.ofNat 16 2⟩ []) row = true := by
  obtain ⟨row, hrow⟩ : ∃ row, insertRow .database ⟨.ofNat 16 2⟩ someMention = some row :=
    Option.isSome_iff_exists.mp (by decide)
  refine ⟨row, hrow, (pushdown_iff _ none _ [] .database someMention row
    (by decide) rfl hrow).mpr ?_⟩
  have hp : (mentionsOf (.ofNat 32 3)).genericTag SingleLetterTag.p =
      some [FixedBytes.toHex (.ofNat 32 3)] := by
    decide
  have hhex : isPubkeyHex (FixedBytes.toHex (.ofNat 32 3)) = true := by decide
  have he : (mentionsOf (.ofNat 32 3)).genericTag SingleLetterTag.e = none := by decide
  have hnip33 : isNip33Only (mentionsOf (.ofNat 32 3)).toFilter = false := by decide
  exact
    { channel := fun c hc => by cases hc
      mention := fun v hv => by
        rw [hp] at hv
        cases hv
        exact ⟨rfl, hhex⟩
      dTag := fun h => by rw [hnip33] at h; cases h
      since := fun s t hs => by cases hs
      til := fun u t hu => by cases hu
      dTexts := fun h => by rw [hnip33] at h; cases h
      eTexts := fun vs hvs => by rw [he] at hvs; cases hvs
      limit := fun l hl => by cases hl }

/-- `until` is the largest `u64`, a bound no timestamp is above; as `i64` it is the second before
the epoch. -/
theorem not_pushdown :
    ¬ ∀ (f : ReadFilter) (community : CommunityId) (accessible : List Uuid) (path : InsertPath)
      (stored : StoredEvent)
        (row : InsertedRow), filtersMatch [f.toFilter] stored = true →
      stored.channelId.all accessible.contains = true → insertRow path community stored = some row →
      selects (reqQuery f (perFilterChannel [f.toFilter] f.toFilter) community accessible) row =
        true := by
  intro h
  let f : ReadFilter := { until' := some 18446744073709551615 }
  obtain ⟨row, hrow⟩ : ∃ row, insertRow .database ⟨.ofNat 16 2⟩ someMention = some row :=
    Option.isSome_iff_exists.mp (by decide)
  have hsel := h f ⟨.ofNat 16 2⟩ [] .database someMention row (by decide) rfl hrow
  have hmissed : (insertRow .database ⟨.ofNat 16 2⟩ someMention).all (fun row =>
      !selects (reqQuery f (perFilterChannel [f.toFilter] f.toFilter) ⟨.ofNat 16 2⟩ []) row) =
        true := by decide
  rw [hrow, Option.all_some, hsel] at hmissed
  cases hmissed

/-! ## Where the columns agree by themselves -/

/-- A filter that pushes down no tag, whose timestamps are dates and whose limit is an `i64`
loses no event that has a date itself. -/
theorem columnsAgree_of_plain (h : Plain f) (hmatch : filterMatchOne f.toFilter stored = true)
    (hcreated : stored.event.createdAt < 2 ^ 63) (hlimit : ∀ l, f.limit = some l → l < 2 ^ 63) :
    ColumnsAgree path f none stored := by
  have hp : f.genericTag .p = none := genericTag_of_plain h (by decide)
  have hd : f.genericTag .d = none := genericTag_of_plain h (by decide)
  have he : f.genericTag .e = none := genericTag_of_plain h (by decide)
  have hasI64 : asI64 stored.event.createdAt = stored.event.createdAt := by
    unfold asI64
    rw [if_pos hcreated]
  unfold filterMatchOne at hmatch
  simp only [Bool.and_eq_true] at hmatch
  obtain ⟨⟨⟨⟨_, hsince⟩, huntil⟩, _⟩, _⟩ := hmatch
  refine
    { channel := fun c hc => by cases hc
      mention := fun v hv => by rw [hp] at hv; cases hv
      dTag := fun _ vs hvs => by rw [hd] at hvs; cases hvs
      since := ?_
      til := ?_
      dTexts := fun _ vs hvs => by rw [hd] at hvs; cases hvs
      eTexts := fun vs hvs => by rw [he] at hvs; cases hvs
      limit := ?_ }
  · intro s t hs ht
    rw [fromTimestamp_asI64 (h.since s hs)] at ht
    cases ht
    rw [hs] at hsince
    have hle : s ≤ stored.event.createdAt := by simpa using hsince
    rw [hasI64]
    refine ⟨?_, Int.ofNat_le.mpr hle⟩
    unfold bindable
    exact decide_eq_true (by omega)
  · intro u t hu ht
    rw [fromTimestamp_asI64 (h.until' u hu)] at ht
    cases ht
    rw [hu] at huntil
    have hle : stored.event.createdAt ≤ u := by simpa using huntil
    rw [hasI64]
    refine ⟨?_, Int.ofNat_le.mpr hle⟩
    unfold bindable
    exact decide_eq_true (by omega)
  · intro l hl
    unfold asI64
    rw [if_pos (hlimit l hl)]
    exact Int.natCast_nonneg l

end Pushdown

end Pkzz.Relay
