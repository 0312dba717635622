import Pkzz.PubSub.Subscriber
import Pkzz.Relay.Routing
import Pkzz.Relay.SubscriptionIndex

/-!
# History and live delivery

One REQ on one pod, and the events all pods publish meanwhile: `handle_req` in `req.rs`,
`dispatch_persistent_event_inner` and `fan_out_pubsub_event` in `event.rs`, the fan-out
consumer of `main.rs`. An event is committed first; a task of the pod that took it then
publishes it to Redis and fans it out to its own subscribers. Redis passes a message on to
the connections that are subscribed at that moment.

What other subscriptions and other requests do appears as calls on the registry and as steps
of the pod's pub/sub manager.
-/

namespace Pkzz.Relay

open Pkzz.Core Pkzz.Lib Pkzz.PubSub

/-! ## The request -/

/-- The UUIDs among the values of `#h`. -/
def channelValues (f : Filter) : List Uuid :=
  f.genericTags.flatMap fun kv => if kv.1.toString = "h" then kv.2.filterMap Uuid.parse else []

/-- The loop over the values of one filter; `none` is the early `return None`. -/
def mergeChannels (found : Option Uuid) : List Uuid → Option (Option Uuid)
  | [] => some found
  | id :: ids =>
    match found with
    | some existing => if existing ≠ id then none else mergeChannels (some id) ids
    | none => mergeChannels (some id) ids

def extractChannelIdFromFiltersGo (found : Option Uuid) : List Filter → Option Uuid
  | [] => found
  | f :: fs =>
    match mergeChannels found (channelValues f) with
    | none => none
    | some found => if (channelValues f).isEmpty then
        none else extractChannelIdFromFiltersGo found fs

/-- `extract_channel_id_from_filters`. -/
def extractChannelIdFromFilters (filters : List Filter) : Option Uuid :=
  extractChannelIdFromFiltersGo none filters

/-- `topic_for_subscription`. -/
def topicForSubscription : Option Uuid → EventTopic
  | some channelId => .channel channelId
  | none => .global

/-- An admitted REQ with one filter that names a channel the reader has access to. -/
structure Request where
  pod : Nat
  connId : ConnId
  subId : SubId
  community : CommunityId
  reader : PublicKey
  filter : ReadFilter
  channelId : Uuid
  accessibleChannels : List Uuid
  channelScoped : extractChannelIdFromFilters [filter.toFilter] = some channelId
  noSearch : filter.search = none
  accessible : channelId ∈ accessibleChannels

namespace Request

/-- The channel of the one filter, before the subscription's. -/
def perFilterChannel (req : Request) : Option Uuid :=
  (extractChannelFromFilter req.filter.toFilter).or (some req.channelId)

/-- `apply_access_scope_to_query`. -/
def applyAccessScopeToQuery (query : EventQuery) (channelId : Option Uuid)
    (accessibleChannels : List Uuid) : EventQuery :=
  if channelId.isNone then { query with channelIds := some accessibleChannels } else query

/-- The query of phase 1. -/
def query (req : Request) : EventQuery :=
  let params := filterToQueryParams req.filter req.perFilterChannel req.community
  let params := applyAccessScopeToQuery params req.perFilterChannel req.accessibleChannels
  if filterCanMatchSharedGatedKinds req.filter.toFilter then
    { params with sharedGatedReader := some req.reader }
  else params

/-- What phase 3 asks of a row. -/
def accepts (req : Request) (stored : StoredEvent) : Bool :=
  filtersMatch [req.filter.toFilter] stored && stored.channelId.all req.accessibleChannels.contains
    && eventVisibleToReader stored.event req.reader

/-- The loop of phase 3; the dedup comes after acceptance. -/
def send (req : Request) (seenIds : List EventId) : List StoredEvent → List EventId
  | [] => []
  | stored :: rest =>
    if !req.accepts stored then send req seenIds rest
    else if seenIds.contains stored.event.id then send req seenIds rest
    else stored.event.id :: send req (stored.event.id :: seenIds) rest

/-- The events the historical query leads to; a failed query leads to none. -/
def historical (req : Request) (db : RouteConfig) (log : List EventRow) (session : ReadSession) :
    List EventId :=
  match db.queryEventsRouted log req.query session with
  | some events => req.send [] events
  | none => []

def entry (req : Request) : SubEntry := ⟨[req.filter.toFilter], req.community, some req.channelId⟩

def topic (req : Request) : EventTopicKey := ⟨req.community, .channel req.channelId⟩

/-- A live event the subscription is for. -/
def Matches (req : Request) (community : CommunityId) (stored : StoredEvent) : Prop :=
  community = req.community ∧ stored.channelId = some req.channelId
    ∧ filtersMatch [req.filter.toFilter] stored = true ∧
      eventVisibleToReader stored.event req.reader = true

instance (req : Request) (community : CommunityId) (stored : StoredEvent) :
    Decidable (req.Matches community stored) :=
  inferInstanceAs (Decidable (_ ∧ _))

end Request

/-! ## The access check of a fan-out -/

/-- What the connection manager and the caches answer for the recipient; `none` where a lookup
fails. -/
structure Answers where
  communityForConn : Option CommunityId
  pubkeyForConn : Option PublicKey
  channelVisibility : Option String
  isMember : Option Bool
  deriving DecidableEq

/-- Whether `filter_fanout_by_access` keeps the recipient. -/
def filterFanoutByAccess (answers : Answers) (community : CommunityId)
    (stored : StoredEvent) : Bool :=
  let kind := stored.event.kind.toNat
  let author := stored.event.pubkey
  decide (answers.communityForConn = some community)
    && (!AUTHOR_ONLY_KINDS.contains kind || decide (answers.pubkeyForConn = some author))
    && (!SHARED_GATED_KINDS.contains kind || answers.pubkeyForConn.any fun pk => decide
      (pk = author) || !isUnsharedGatedEvent stored.event pk)
    && (match stored.channelId with
      | none => true
      | some _ =>
        match answers.channelVisibility with
        | none => false
        | some v => v != "private" ||
            (answers.pubkeyForConn.isSome && decide (answers.isMember = some true)))

/-- `private_event_owner`: the gate a pod adds to its own events of viewer-private kinds. -/
def ownerGate (pubkeyForConn : Option PublicKey) (event : Event) : Bool :=
  if event.kind.toNat = KIND_DM_VISIBILITY ∨ event.kind.toNat = KIND_AGENT_TURN_METRIC then
    match (event.tagContents SingleLetterTag.p.toString).head? with
    | some owner => pubkeyForConn.any fun pk => pk.toHex == owner
    | none => true
  else true

/-! ## The system -/

/-- How far the task that follows a commit has come. -/
inductive Stage where
  | committed
  | published
  | done
  deriving DecidableEq

/-- `dispatch_persistent_event_inner` on a pod. -/
structure Dispatch where
  pod : Nat
  row : EventRow
  stage : Stage
  deriving DecidableEq

def EventRow.topic (row : EventRow) : EventTopicKey :=
  ⟨row.communityId, topicForSubscription row.channelId⟩

def EventRow.key (row : EventRow) : CommunityId × EventId := (row.communityId, row.event.id)

/-- A PUBLISH as a subscribed connection gets it. -/
structure Message where
  channel : String
  event : Event
  deriving DecidableEq

structure ChannelEvent where
  communityId : CommunityId
  topic : EventTopic
  event : Event
  deriving DecidableEq

def EventRow.message (row : EventRow) : Message := ⟨row.topic.redisChannel, row.event⟩

def EventRow.channelEvent (row : EventRow) : ChannelEvent :=
  ⟨row.communityId, topicForSubscription row.channelId, row.event⟩

/-- The `StoredEvent` of `fan_out_pubsub_event`. -/
def ChannelEvent.stored (e : ChannelEvent) : StoredEvent :=
  ⟨e.event, match e.topic with
    | .channel id => some id
    | .global => none⟩

def ChannelEvent.key (e : ChannelEvent) : CommunityId × EventId := (e.communityId, e.event.id)

/-- How far `handle_req` has come. -/
inductive ReqStage where
  | new
  | registered (replaced : Option RemovedSubscription)
  | released
  | retained
  | queried (found : List EventId)
  | done
  deriving DecidableEq

/-- What `broadcast::channel` was made for. -/
def BROADCAST_CAPACITY : Nat := 4096

/-- The writer's log, the tasks that follow the commits, and the pod of the request. -/
structure State where
  log : List EventRow
  dispatches : List Dispatch
  registry : SubscriptionRegistry
  pubsub : PubSubManager
  localEventIds : Finset (CommunityId × EventId)
  /-- Messages on the pod's pub/sub connection. -/
  stream : List Message
  broadcast : List ChannelEvent
  req : ReqStage
  /-- The events sent to the subscription. -/
  delivered : List EventId

inductive Action where
  | registry (call : Call)
  | pubsub (action : PubSub.Action)
  | commit (pod : Nat) (row : EventRow)
  | publish (i : Nat)
  | fanOut (i : Nat) (answers : Answers)
  /-- The subscriber task reads a message. -/
  | receive
  /-- The fan-out consumer takes an event. -/
  | consume (answers : Answers)
  /-- An entry of `local_event_ids` expires. -/
  | expire (key : CommunityId × EventId)
  | register
  | release
  | retain
  | query (session : ReadSession)
  | eose

namespace State

def init : State := ⟨[], [], .new, .init, ∅, [], [], .new, []⟩

/-- Found in the database, and not sent yet. -/
def history (s : State) : List EventId :=
  match s.req with
  | .queried found => found
  | _ => []

def beforeQuery (s : State) : Bool :=
  match s.req with
  | .new | .registered _ | .released | .retained => true
  | .queried _ | .done => false

/-- Whether the fan-out of an event reaches the subscription. -/
def reaches (req : Request) (s : State) (answers : Answers) (community : CommunityId)
    (stored : StoredEvent) : Bool :=
  (s.registry.fanOutScoped community stored).contains (req.connId, req.subId)
    && filterFanoutByAccess answers community stored

def step (req : Request) (db : RouteConfig) (s : State) : Action → Option State
  | .registry call => some { s with registry := s.registry.call call }
  | .pubsub action =>
    match s.pubsub.step action with
    | some pubsub =>
      some { s with
        pubsub
        -- messages do not outlive their connection
        stream := if action = .fail then [] else s.stream }
    | none => none
  | .commit pod row =>
    if row.deleted = false ∧ ∀ r ∈ s.log, r.key ≠ row.key then
      some { s with log := s.log ++ [row], dispatches := s.dispatches ++ [⟨pod, row, .committed⟩] }
    else none
  | .publish i =>
    match s.dispatches[i]? with
    | some ⟨pod, row, .committed⟩ =>
      some { s with
        dispatches := s.dispatches.set i ⟨pod, row, .published⟩
        localEventIds := if pod = req.pod then insert row.key s.localEventIds else s.localEventIds
        stream := if row.topic.redisChannel ∈ s.pubsub.redis then
          s.stream ++ [row.message] else s.stream }
    | _ => none
  | .fanOut i answers =>
    match s.dispatches[i]? with
    | some ⟨pod, row, .published⟩ =>
      some { s with
        dispatches := s.dispatches.set i ⟨pod, row, .done⟩
        delivered :=
          if pod = req.pod ∧ s.reaches req answers row.communityId row.stored = true
              ∧ ownerGate answers.pubkeyForConn row.event = true then
            s.delivered ++ [row.event.id]
          else s.delivered }
    | _ => none
  | .receive =>
    match s.pubsub.task, s.stream with
    | .listening, message :: rest =>
      if s.pubsub.alive then
        match EventTopicKey.parseRedisChannel message.channel with
        | .ok key =>
          -- a full channel forgets its oldest event
          let kept := if s.broadcast.length < BROADCAST_CAPACITY then
              s.broadcast else s.broadcast.drop 1
          some { s with
            stream := rest, broadcast := kept ++ [⟨key.communityId, key.topic, message.event⟩] }
        | .error _ => some { s with stream := rest }
      else none
    | _, _ => none
  | .consume answers =>
    match s.broadcast with
    | e :: rest =>
      if e.key ∈ s.localEventIds then
        some { s with broadcast := rest, localEventIds := s.localEventIds.erase e.key }
      else if s.reaches req answers e.communityId e.stored then
        some { s with broadcast := rest, delivered := s.delivered ++ [e.event.id] }
      else some { s with broadcast := rest }
    | [] => none
  | .expire key => some { s with localEventIds := s.localEventIds.erase key }
  | .register =>
    match s.req with
    | .new =>
      let (registry, replaced) :=
        s.registry.registerScoped req.community req.connId req.subId [req.filter.toFilter]
          (some req.channelId)
      some { s with registry, req := .registered replaced }
    | _ => none
  | .release =>
    match s.req with
    | .registered (some replaced) =>
      some { s with
        pubsub := s.pubsub.release ⟨req.community, topicForSubscription replaced.channelId⟩
        req := .released }
    | .registered none => some { s with req := .released }
    | _ => none
  | .retain =>
    match s.req with
    | .released => some { s with pubsub := s.pubsub.retain req.topic, req := .retained }
    | _ => none
  | .query session =>
    match s.req with
    | .retained => some { s with req := .queried (req.historical db s.log session) }
    | _ => none
  | .eose =>
    match s.req with
    | .queried found => some { s with req := .done, delivered := s.delivered ++ found }
    | _ => none

def machine (req : Request) (db : RouteConfig) : Machine State Action := ⟨step req db⟩

/-- The request is answered, and every event has gone its way. -/
structure Settled (s : State) : Prop where
  req : s.req = .done
  dispatches : ∀ d ∈ s.dispatches, d.stage = .done
  stream : s.stream = []
  broadcast : s.broadcast = []

/-- Every live event the subscription is for has been sent to it. -/
def NoGap (req : Request) (s : State) : Prop :=
  ∀ row ∈ s.log, req.Matches row.communityId row.stored → row.event.id ∈ s.delivered

end State

end Pkzz.Relay
