import Pkzz.Core.Filter
import Pkzz.Lib.Map

/-!
# The subscription registry

`buzz-relay`'s `subscription.rs`: the authoritative map `subs` from connections to their
subscriptions, and the five inverted indexes that fan-out probes instead of scanning it.
Functions that mutate the registry return the new one, paired with the source's return
value where it has one. A function that iterates over a hash map takes the order it
happens to visit the keys in.
-/

namespace Pkzz.Relay

open Pkzz.Core Pkzz.Lib
open Finmap (lookup)

abbrev ConnId := Uuid
abbrev SubId := String

/-- `SubEntry`: the filters of a subscription with its server-resolved scope. -/
structure SubEntry where
  filters : List Filter
  communityId : CommunityId
  channelId : Option Uuid
  deriving DecidableEq

structure IndexKey where
  channelId : Uuid
  kind : Kind
  deriving DecidableEq

structure GlobalPKindIndexKey where
  communityId : CommunityId
  kind : Kind
  p : String
  deriving DecidableEq

/-- The routing scope of a subscription that is gone, so that its topic can be released. -/
structure RemovedSubscription where
  communityId : CommunityId
  channelId : Option Uuid
  deriving DecidableEq

structure SubscriptionRegistry where
  subs : Map ConnId (Map SubId SubEntry)
  channelKindIndex : Map (CommunityId × IndexKey) (List (ConnId × SubId))
  channelWildcardIndex : Map (CommunityId × Uuid) (List (ConnId × SubId))
  globalKindIndex : Map (CommunityId × Kind) (List (ConnId × SubId))
  globalPKindIndex : Map GlobalPKindIndexKey (List (ConnId × SubId))
  globalWildcardIndex : Map CommunityId (List (ConnId × SubId))

def SubscriptionRegistry.new : SubscriptionRegistry := ⟨∅, ∅, ∅, ∅, ∅, ∅⟩

/-! ## Which index keys a filter list asks for -/

/-- `if seen.insert(x) { out.push(x) }`, where `seen` holds what `out` lists. -/
def pushUnseen {α : Type} [DecidableEq α] (out : List α) (x : α) : List α :=
  if x ∈ out then out else out ++ [x]

def extractKindsFromFiltersGo (kinds : List Kind) : List Filter → Option (List Kind)
  | [] => some kinds
  | f :: fs =>
    match f.kinds with
    | some filterKinds => extractKindsFromFiltersGo (filterKinds.foldl pushUnseen kinds) fs
    | none => none

/-- The union of all `kinds`, or `none` when some filter has no `kinds` at all. -/
def extractKindsFromFilters (filters : List Filter) : Option (List Kind) :=
  extractKindsFromFiltersGo [] filters

def pTag : SingleLetterTag := ⟨'p', by decide⟩

/-- The keys one filter contributes: every kind with every `#p` value. -/
def globalPKindKeys (communityId : CommunityId) (kinds : List Kind) (pValues : List String) :
    List GlobalPKindIndexKey :=
  kinds.flatMap fun kind => pValues.map fun p => ⟨communityId, kind, p⟩

def extractGlobalPKindIndexKeysGo (communityId : CommunityId) (keys : List GlobalPKindIndexKey) :
    List Filter → Option (List GlobalPKindIndexKey)
  | [] => some keys
  | f :: fs =>
    match f.kinds with
    | none => none
    | some kinds =>
      if kinds.isEmpty then
        extractGlobalPKindIndexKeysGo communityId keys fs
      else
        match f.genericTag pTag with
        | none => none
        | some pValues =>
          if pValues.isEmpty then
            none
          else
            extractGlobalPKindIndexKeysGo communityId
              ((globalPKindKeys communityId kinds pValues).foldl pushUnseen keys) fs

/-- The `(kind, #p)` keys when every filter that can match is constrained by both. -/
def extractGlobalPKindIndexKeys (communityId : CommunityId) (filters : List Filter) :
    Option (List GlobalPKindIndexKey) :=
  extractGlobalPKindIndexKeysGo communityId [] filters

/-- The distinct `#p` values of an event. -/
def eventPTagValues (event : StoredEvent) : List String :=
  (event.event.tagContents "p").foldl pushUnseen []

/-! ## Registration and removal -/

namespace SubscriptionRegistry

def getEntry (r : SubscriptionRegistry) (connId : ConnId) (subId : SubId) : Option SubEntry :=
  (lookup connId r.subs).bind (lookup subId)

/-- The indexing half of `register_scoped`. -/
def addToIndex (r : SubscriptionRegistry) (connId : ConnId) (subId : SubId)
    (filters : List Filter) (communityId : CommunityId) (channelId : Option Uuid) :
    SubscriptionRegistry :=
  match channelId with
  | some chId =>
    match extractKindsFromFilters filters with
    | none =>
      { r with
        channelWildcardIndex :=
          Map.pushBack r.channelWildcardIndex (communityId, chId) (connId, subId) }
    -- an empty union matches nothing and is indexed nowhere
    | some kinds =>
      { r with
        channelKindIndex :=
          kinds.foldl (fun idx kind => Map.pushBack idx (communityId, ⟨chId, kind⟩) (connId, subId))
            r.channelKindIndex }
  | none =>
    match extractGlobalPKindIndexKeys communityId filters with
    | some keys =>
      { r with
        globalPKindIndex :=
          keys.foldl (fun idx key => Map.pushBack idx key (connId, subId)) r.globalPKindIndex }
    | none =>
      match extractKindsFromFilters filters with
      | none =>
        { r with
          globalWildcardIndex :=
            Map.pushBack r.globalWildcardIndex communityId (connId, subId) }
      | some kinds =>
        { r with
          globalKindIndex :=
            kinds.foldl (fun idx kind => Map.pushBack idx (communityId, kind) (connId, subId))
              r.globalKindIndex }

def removeFromIndex (r : SubscriptionRegistry) (connId : ConnId) (subId : SubId)
    (filters : List Filter) (communityId : CommunityId) (channelId : Option Uuid) :
    SubscriptionRegistry :=
  let keep := fun p : ConnId × SubId => p != (connId, subId)
  match channelId with
  | some chId =>
    match extractKindsFromFilters filters with
    | none =>
      { r with
        channelWildcardIndex :=
          Map.retain r.channelWildcardIndex (communityId, chId) keep }
    | some kinds =>
      { r with
        channelKindIndex :=
          kinds.foldl (fun idx kind => Map.retain idx (communityId, ⟨chId, kind⟩) keep)
            r.channelKindIndex }
  | none =>
    match extractGlobalPKindIndexKeys communityId filters with
    | some keys =>
      { r with
        globalPKindIndex :=
          keys.foldl (fun idx key => Map.retain idx key keep) r.globalPKindIndex }
    | none =>
      match extractKindsFromFilters filters with
      | none =>
        { r with
          globalWildcardIndex :=
            Map.retain r.globalWildcardIndex communityId keep }
      | some kinds =>
        { r with
          globalKindIndex :=
            kinds.foldl (fun idx kind => Map.retain idx (communityId, kind) keep)
              r.globalKindIndex }

def removeSubscription (r : SubscriptionRegistry) (connId : ConnId) (subId : SubId) :
    SubscriptionRegistry × Option RemovedSubscription :=
  match lookup connId r.subs with
  | none => (r, none)
  | some connSubs =>
    match lookup subId connSubs with
    | none => (r, none)
    | some entry =>
      -- the connection keeps its map even when it became empty
      let r := { r with subs := Finmap.insert connId (Finmap.erase subId connSubs) r.subs }
      (r.removeFromIndex connId subId entry.filters entry.communityId entry.channelId,
        some ⟨entry.communityId, entry.channelId⟩)

def registerScoped (r : SubscriptionRegistry) (communityId : CommunityId) (connId : ConnId)
    (subId : SubId) (filters : List Filter) (channelId : Option Uuid) :
    SubscriptionRegistry × Option RemovedSubscription :=
  let (r, removed) := r.removeSubscription connId subId
  let connSubs := (lookup connId r.subs).getD ∅
  let r :=
      { r with
        subs :=
          Finmap.insert connId (Finmap.insert subId ⟨filters, communityId,
            channelId⟩ connSubs) r.subs }
  (r.addToIndex connId subId filters communityId channelId, removed)

/-- One round of the loop in `remove_connection`, over a connection already taken out. -/
def removeConnectionStep (connId : ConnId) (connSubs : Map SubId SubEntry)
    (acc : SubscriptionRegistry × List RemovedSubscription) (subId : SubId) :
    SubscriptionRegistry × List RemovedSubscription :=
  match lookup subId connSubs with
  | none => acc
  | some entry =>
    (acc.1.removeFromIndex connId subId entry.filters entry.communityId entry.channelId, acc.2 ++
      [⟨entry.communityId, entry.channelId⟩])

def removeConnection (r : SubscriptionRegistry) (order : HashOrder SubId) (connId : ConnId) :
    SubscriptionRegistry × List RemovedSubscription :=
  match lookup connId r.subs with
  | none => (r, [])
  | some connSubs =>
    (order.keys connSubs).foldl (removeConnectionStep connId connSubs)
      ({ r with subs := Finmap.erase connId r.subs }, [])

/-- The subscription ids of a connection that are scoped to a channel. -/
def channelSubIds (r : SubscriptionRegistry) (order : HashOrder SubId) (communityId : CommunityId)
    (connId : ConnId) (channelId : Uuid) : List SubId :=
  match lookup connId r.subs with
  | none => []
  | some connSubs =>
    (order.keys connSubs).filter fun subId =>
      match lookup subId connSubs with
      | none => false
      | some entry => entry.communityId = communityId ∧ entry.channelId = some channelId

def removeListedStep (connId : ConnId)
    (acc : SubscriptionRegistry × List (SubId × RemovedSubscription)) (subId : SubId) :
    SubscriptionRegistry × List (SubId × RemovedSubscription) :=
  match acc.1.removeSubscription connId subId with
  | (r, none) => (r, acc.2)
  | (r, some removed) => (r, acc.2 ++ [(subId, removed)])

def removeChannelSubscriptionsScoped (r : SubscriptionRegistry) (order : HashOrder SubId)
    (communityId : CommunityId) (connId : ConnId) (channelId : Uuid) :
    SubscriptionRegistry × List (SubId × RemovedSubscription) :=
  (r.channelSubIds order communityId connId channelId).foldl (removeListedStep connId) (r, [])

/-! ## Reading -/

/-- The connections found in the two channel indexes. A `HashSet` in the source. -/
def channelSubscriberConnsScoped (r : SubscriptionRegistry) (communityId : CommunityId)
    (channelId : Uuid) : Finset ConnId :=
  (r.channelKindIndex.keys.filter fun key =>
      key.1 = communityId ∧ key.2.channelId = channelId).biUnion
    (fun key => ((Map.bucket r.channelKindIndex key).map Prod.fst).toFinset)
  ∪ ((Map.bucket r.channelWildcardIndex (communityId, channelId)).map Prod.fst).toFinset

/-- `push_match`: re-check a candidate against the authoritative map; `seen` is `results`. -/
def pushMatch (r : SubscriptionRegistry) (communityId : CommunityId) (event : StoredEvent)
    (results : List (ConnId × SubId)) (candidate : ConnId × SubId) : List (ConnId × SubId) :=
  match r.getEntry candidate.1 candidate.2 with
  | none => results
  | some entry =>
    if entry.communityId = communityId ∧ entry.channelId = event.channelId
        ∧ filtersMatch entry.filters event = true then
      pushUnseen results candidate
    else
      results

/-- The index buckets that `fan_out_scoped` probes, in its order. -/
def fanOutCandidates (r : SubscriptionRegistry) (communityId : CommunityId)
    (event : StoredEvent) : List (ConnId × SubId) :=
  match event.channelId with
  | some channelId =>
    Map.bucket r.channelKindIndex (communityId, ⟨channelId, event.event.kind⟩)
      ++ Map.bucket r.channelWildcardIndex (communityId, channelId)
  | none =>
    ((eventPTagValues event).flatMap fun p =>
        Map.bucket r.globalPKindIndex ⟨communityId, event.event.kind, p⟩)
      ++ Map.bucket r.globalKindIndex (communityId, event.event.kind)
      ++ Map.bucket r.globalWildcardIndex communityId

def fanOutScoped (r : SubscriptionRegistry) (communityId : CommunityId) (event : StoredEvent) :
    List (ConnId × SubId) :=
  (r.fanOutCandidates communityId event).foldl (r.pushMatch communityId event) []

/-! ## Counting -/

def totalSubscriptions (r : SubscriptionRegistry) (connOrder : HashOrder ConnId) : Nat :=
  ((connOrder.keys r.subs).map fun connId =>
    ((lookup connId r.subs).getD ∅).keys.card).sum

def totalConnections (r : SubscriptionRegistry) : Nat := r.subs.keys.card

/-- `*counts.entry(community_id).or_default() += 1`. -/
def countCommunity (counts : Map CommunityId Nat) (entry : SubEntry) : Map CommunityId Nat :=
  Finmap.insert entry.communityId ((lookup entry.communityId counts).getD 0 + 1) counts

def perCommunitySubscriptions (r : SubscriptionRegistry) (connOrder : HashOrder ConnId)
    (subOrder : HashOrder SubId) : Map CommunityId Nat :=
  (connOrder.keys r.subs).foldl
    (fun counts connId =>
      let connSubs := (lookup connId r.subs).getD ∅
      ((subOrder.keys connSubs).filterMap fun subId => lookup subId connSubs).foldl
        countCommunity counts)
    ∅

end SubscriptionRegistry

/-! ## Runs -/

/-- One call on the registry. -/
inductive Call where
  | register (communityId : CommunityId) (connId : ConnId) (subId : SubId)
      (filters : List Filter) (channelId : Option Uuid)
  | removeSubscription (connId : ConnId) (subId : SubId)
  | removeConnection (order : HashOrder SubId) (connId : ConnId)
  | removeChannelSubscriptions (order : HashOrder SubId) (communityId : CommunityId)
      (connId : ConnId) (channelId : Uuid)

def SubscriptionRegistry.call (r : SubscriptionRegistry) : Call → SubscriptionRegistry
  | .register c conn sub filters ch => (r.registerScoped c conn sub filters ch).1
  | .removeSubscription conn sub => (r.removeSubscription conn sub).1
  | .removeConnection order conn => (r.removeConnection order conn).1
  | .removeChannelSubscriptions order c conn ch =>
    (r.removeChannelSubscriptionsScoped order c conn ch).1

/-- What a call reports about the subscriptions it removed. -/
def SubscriptionRegistry.returned (r : SubscriptionRegistry) : Call → List RemovedSubscription
  | .register c conn sub filters ch => (r.registerScoped c conn sub filters ch).2.toList
  | .removeSubscription conn sub => (r.removeSubscription conn sub).2.toList
  | .removeConnection order conn => (r.removeConnection order conn).2
  | .removeChannelSubscriptions order c conn ch =>
    (r.removeChannelSubscriptionsScoped order c conn ch).2.map Prod.snd

/-- What a sequence of calls reports, call by call. -/
def SubscriptionRegistry.returnedOver (r : SubscriptionRegistry) : List Call →
    List RemovedSubscription
  | [] => []
  | call :: calls => r.returned call ++ (r.call call).returnedOver calls

/-- The registry after a sequence of calls on an empty one. -/
def SubscriptionRegistry.run (calls : List Call) : SubscriptionRegistry :=
  calls.foldl SubscriptionRegistry.call .new

end Pkzz.Relay
