import Pkzz.Core.Ids

/-!
# Events, filters and NIP-01 matching

`buzz-core`'s `filter.rs`: filters are OR-ed, the fields of one filter are AND-ed. The
sets inside a filter (`BTreeSet` in the source) are lists here: only membership and
emptiness are ever asked of them.
-/

namespace Pkzz.Core

open Pkzz.Lib

/-- A Nostr event kind. -/
abbrev Kind := UInt16

/-- Seconds since the epoch. -/
abbrev Timestamp := Nat

/-- An event tag: a non-empty list of strings, the first of which names its kind. -/
structure Tag where
  buf : List String
  nonempty : buf ≠ []
  deriving DecidableEq

/-- `tag.kind().to_string()`. -/
def Tag.kind (t : Tag) : String := t.buf.head t.nonempty

/-- `tag.content()`: the value after the kind, if there is one. -/
def Tag.content (t : Tag) : Option String := t.buf[1]?

/-- The fields of a signed event that matching and fan-out read. -/
structure Event where
  id : EventId
  pubkey : PublicKey
  createdAt : Timestamp
  kind : Kind
  tags : List Tag
  deriving DecidableEq

/-- An event with the channel scope the relay assigned to it; `none` for global events. -/
structure StoredEvent where
  event : Event
  channelId : Option Uuid
  deriving DecidableEq

/-- A one-letter tag name, upper or lower case. -/
structure SingleLetterTag where
  char : Char
  isAlpha : char.isAlpha = true
  deriving DecidableEq

def SingleLetterTag.toString (t : SingleLetterTag) : String := String.singleton t.char

/-- A subscription filter; an absent field constrains nothing. -/
structure Filter where
  ids : Option (List EventId) := none
  authors : Option (List PublicKey) := none
  kinds : Option (List Kind) := none
  since : Option Timestamp := none
  until' : Option Timestamp := none
  genericTags : List (SingleLetterTag × List String) := []
  deriving DecidableEq

/-- `generic_tags.get(&key)`. -/
def Filter.genericTag (f : Filter) (key : SingleLetterTag) : Option (List String) :=
  (f.genericTags.find? fun kv => kv.1 = key).map Prod.snd

/-- The values of an event's tags of one kind. -/
def Event.tagContents (e : Event) (kind : String) : List String :=
  (e.tags.filter fun t => t.kind == kind).filterMap Tag.content

/-- One round of the loop over `generic_tags` in `filter_match_one`. -/
def tagConstraintMatches (ev : StoredEvent) (tagKey : SingleLetterTag)
    (tagValues : List String) : Bool :=
  let hasMatch := tagValues.any fun v => (ev.event.tagContents tagKey.toString).contains v
  if !hasMatch && tagKey.toString == "h" then
    -- an event without any h-tag is matched by the channel the relay derived for it
    if ev.event.tags.any fun t => t.kind == "h" then
      false
    else
      match ev.channelId with
      | some ch => tagValues.any fun v => v == ch.toString
      | none => false
  else
    hasMatch

/-- `filter_match_one`: every present field admits the event. -/
def filterMatchOne (f : Filter) (ev : StoredEvent) : Bool :=
  (match f.kinds with
    | some kinds => kinds.contains ev.event.kind
    | none => true)
  && (match f.authors with
    | some authors => authors.contains ev.event.pubkey
    | none => true)
  && (match f.since with
    | some since => !(ev.event.createdAt < since)
    | none => true)
  && (match f.until' with
    | some til => !(ev.event.createdAt > til)
    | none => true)
  && (match f.ids with
    | some ids => ids.any fun id => Str.startsWith ev.event.id.toHex id.toHex
    | none => true)
  && f.genericTags.all fun kv => tagConstraintMatches ev kv.1 kv.2

/-- `filters_match`: some filter matches. -/
def filtersMatch (filters : List Filter) (ev : StoredEvent) : Bool :=
  filters.any fun f => filterMatchOne f ev

/-! ## What a match implies -/

/-- A matching filter that names kinds names the event's kind. -/
theorem kind_mem_of_match {f : Filter} {ev : StoredEvent} {kinds : List Kind}
    (h : filterMatchOne f ev = true) (hk : f.kinds = some kinds) : ev.event.kind ∈ kinds := by
  simp only [filterMatchOne, hk, Bool.and_eq_true] at h
  simpa using h.1.1.1.1.1

/-- A matching filter has every one of its tag constraints met. -/
theorem tagConstraint_of_match {f : Filter} {ev : StoredEvent} {key : SingleLetterTag}
    {values : List String} (h : filterMatchOne f ev = true)
    (hk : f.genericTag key = some values) : tagConstraintMatches ev key values = true := by
  simp only [filterMatchOne, Bool.and_eq_true, List.all_eq_true] at h
  unfold Filter.genericTag at hk
  obtain ⟨kv, hfind, hval⟩ := Option.map_eq_some_iff.mp hk
  have hkey : kv.1 = key := by simpa using List.find?_some hfind
  have := h.2 kv (List.mem_of_find?_eq_some hfind)
  rwa [hkey, hval] at this

/--
Away from the `h` fallback, a met tag constraint means that the event carries one of the
wanted values.
-/
theorem exists_value_of_constraint {ev : StoredEvent} {key : SingleLetterTag}
    {values : List String} (hne : key.toString ≠ "h")
    (h : tagConstraintMatches ev key values = true) :
    ∃ v ∈ values, v ∈ ev.event.tagContents key.toString := by
  unfold tagConstraintMatches at h
  dsimp only at h
  rw [if_neg (by simp [hne])] at h
  simpa using h

end Pkzz.Core
