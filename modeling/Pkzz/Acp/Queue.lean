import Mathlib.Data.List.MinMax
import Mathlib.Data.List.Sort
import Pkzz.Core.Filter
import Pkzz.Lib.Map

/-!
# The event queue of the ACP harness

`buzz-acp`'s `queue.rs`: what the main loop keeps per channel between an event and the
prompt it ends up in. An event is queued, withheld while a native steer for it is under
way, held back as part of a cancelled batch, or in a batch that was handed out.

A function that reads the clock takes the instant as an argument, one that iterates over
hash maps takes the orders, and `requeue` takes what its jitter makes of a delay.
-/

namespace Pkzz.Acp

open Pkzz.Core Pkzz.Lib

/-- Nanoseconds on the monotonic clock. -/
abbrev Instant := Nat

abbrev Duration := Nat

@[irreducible] def Duration.fromSecs (secs : Nat) : Duration := secs * 1000000000

/-- Events queued for one channel before the oldest ones are dropped. -/
def maxPendingPerChannel : Nat := 500

/-- Events drained into one batch. -/
def maxBatchEvents : Nat := 50

/-- Attempts before a batch is dead-lettered. -/
def maxRetries : Nat := 10

def baseRetryDelaySecs : Nat := 5

def maxRetryDelaySecs : Nat := 300

def inFlightDeadlineBufferSecs : Nat := 100

def defaultInFlightDeadlineSecs : Nat := 7300

inductive DedupMode where
  | drop
  | queue
  deriving DecidableEq

structure QueuedEvent where
  channelId : Uuid
  event : Event
  receivedAt : Instant
  promptTag : String
  deriving DecidableEq

structure BatchEvent where
  event : Event
  promptTag : String
  receivedAt : Instant
  deriving DecidableEq

def QueuedEvent.toBatchEvent (qe : QueuedEvent) : BatchEvent where
  event := qe.event
  promptTag := qe.promptTag
  receivedAt := qe.receivedAt

/-- `qe.event.id.to_hex() == event_id`. -/
def QueuedEvent.hasId (eventId : String) (qe : QueuedEvent) : Bool := qe.event.id.toHex == eventId

def BatchEvent.toQueuedEvent (channelId : Uuid) (be : BatchEvent) : QueuedEvent where
  channelId := channelId
  event := be.event
  receivedAt := be.receivedAt
  promptTag := be.promptTag

inductive CancelReason where
  | interrupt
  | steer
  deriving DecidableEq

structure FlushBatch where
  channelId : Uuid
  events : List BatchEvent
  /-- Events of a cancelled batch that led to this one. -/
  cancelledEvents : List BatchEvent
  cancelReason : Option CancelReason
  deriving DecidableEq

structure EventQueue where
  queues : Map Uuid (List QueuedEvent)
  inFlightChannels : Finset Uuid
  inFlightDeadlines : Map Uuid Instant
  inFlightBatchSizes : Map Uuid Nat
  retryAfter : Map Uuid Instant
  retryCounts : Map Uuid Nat
  dedupMode : DedupMode
  cancelledBatches : Map Uuid (List BatchEvent)
  cancelReasons : Map Uuid CancelReason
  withheldNativeSteer : Map Uuid (List QueuedEvent)
  inFlightDeadline : Duration

/-- The orders in which `flush_next` visits its hash maps. -/
structure IterOrders where
  deadlines : HashOrder Uuid
  queues : HashOrder Uuid
  cancelled : HashOrder Uuid

/-- `while queue.len() > MAX_PENDING_PER_CHANNEL { queue.pop_back() }`. -/
def enforceCap (l : List QueuedEvent) : List QueuedEvent := l.take maxPendingPerChannel

namespace EventQueue

def new (dedupMode : DedupMode) : EventQueue where
  queues := ∅
  inFlightChannels := ∅
  inFlightDeadlines := ∅
  inFlightBatchSizes := ∅
  retryAfter := ∅
  retryCounts := ∅
  dedupMode := dedupMode
  cancelledBatches := ∅
  cancelReasons := ∅
  withheldNativeSteer := ∅
  inFlightDeadline := Duration.fromSecs defaultInFlightDeadlineSecs

def withInFlightDeadline (q : EventQueue) (maxTurnDurationSecs : Nat) : EventQueue :=
  { q with
    inFlightDeadline := Duration.fromSecs (maxTurnDurationSecs + inFlightDeadlineBufferSecs) }

def extendInFlightDeadline (q : EventQueue) (now : Instant) (channelId : Uuid) (maxTurnSecs : Nat) :
    EventQueue :=
  match q.inFlightDeadlines.lookup channelId with
  | none => q
  | some current =>
    let extended := now + Duration.fromSecs (maxTurnSecs + inFlightDeadlineBufferSecs)
    if extended > current then
      { q with inFlightDeadlines := q.inFlightDeadlines.insert channelId extended }
    else q

/-! ## Push -/

def push (q : EventQueue) (event : QueuedEvent) : EventQueue × Bool :=
  if q.dedupMode = .drop ∧ event.channelId ∈ q.inFlightChannels then (q, false)
  else
    let queue := Map.bucket q.queues event.channelId
    let queue := if queue.length ≥ maxPendingPerChannel then queue.tail else queue
    ({ q with queues := q.queues.insert event.channelId (queue ++ [event]) }, true)

/-! ## Deadlines of prompts in flight -/

/-- Bulk release of the events withheld for a channel to the front of its queue. -/
def recoverWithheldForExpiredChannel (q : EventQueue) (channelId : Uuid) : EventQueue :=
  match q.withheldNativeSteer.lookup channelId with
  | none => q
  | some entries =>
    { q with
      withheldNativeSteer := q.withheldNativeSteer.erase channelId
      queues := q.queues.insert channelId (enforceCap (entries ++ Map.bucket q.queues channelId)) }

/-- The deadline of the prompt in flight for a channel has passed. -/
def Expired (q : EventQueue) (now : Instant) (channelId : Uuid) : Prop :=
  ∃ deadline ∈ q.inFlightDeadlines.lookup channelId, deadline ≤ now

instance (q : EventQueue) (now : Instant) (channelId : Uuid) :
    Decidable (q.Expired now channelId) :=
  match h : q.inFlightDeadlines.lookup channelId with
  | none => isFalse (by simp [Expired, h])
  | some deadline => decidable_of_iff (deadline ≤ now) (by simp [Expired, h])

/-- One round of the loop over the expired channels. -/
def releaseExpired (q : EventQueue) (id : Uuid) : EventQueue :=
  recoverWithheldForExpiredChannel
    { q with
      inFlightBatchSizes := q.inFlightBatchSizes.erase id
      inFlightChannels := q.inFlightChannels.erase id
      inFlightDeadlines := q.inFlightDeadlines.erase id } id

def expiredChannels (q : EventQueue) (order : HashOrder Uuid) (now : Instant) : List Uuid :=
  (order.keys q.inFlightDeadlines).filter fun id => q.Expired now id

/-- What `flush_next` and `has_flushable_work` start with. -/
def expireInFlight (q : EventQueue) (order : HashOrder Uuid) (now : Instant) : EventQueue :=
  (q.expiredChannels order now).foldl releaseExpired q

/-! ## Flush -/

/-- `self.retry_after.get(id).is_none_or(|&t| t <= now)`. -/
def Throttled (q : EventQueue) (now : Instant) (id : Uuid) : Prop :=
  ∃ t ∈ q.retryAfter.lookup id, now < t

instance (q : EventQueue) (now : Instant) (id : Uuid) : Decidable (q.Throttled now id) :=
  match h : q.retryAfter.lookup id with
  | none => isFalse (by simp [Throttled, h])
  | some t => decidable_of_iff (now < t) (by simp [Throttled, h])

/-- A channel that may be flushed: something is queued, nothing in flight, no throttle. -/
def Flushable (q : EventQueue) (now : Instant) (id : Uuid) : Prop :=
  Map.bucket q.queues id ≠ [] ∧ id ∉ q.inFlightChannels ∧ ¬ q.Throttled now id

instance (q : EventQueue) (now : Instant) (id : Uuid) : Decidable (q.Flushable now id) :=
  inferInstanceAs (Decidable (_ ∧ _ ∧ _))

/-- `q.front().unwrap().received_at`, for a queue that has a front. -/
def headReceivedAt (q : EventQueue) (id : Uuid) : Instant :=
  match Map.bucket q.queues id with
  | [] => 0
  | qe :: _ => qe.receivedAt

/-- The channel whose head event is the oldest one. -/
def nextQueued (q : EventQueue) (order : HashOrder Uuid) (now : Instant) : Option Uuid :=
  ((order.keys q.queues).filter fun id => q.Flushable now id).argmin q.headReceivedAt

/-- A channel with cancelled events waiting. -/
def nextCancelled (q : EventQueue) (order : HashOrder Uuid) : Option Uuid :=
  (order.keys q.cancelledBatches).find? fun id => id ∉ q.inFlightChannels

/-- `events.sort_by_key(|be| be.event.created_at)`, which is stable. -/
def sortByCreatedAt (events : List BatchEvent) : List BatchEvent :=
  events.insertionSort fun a b => a.event.createdAt ≤ b.event.createdAt

def markInFlight (q : EventQueue) (now : Instant) (id : Uuid) (size : Nat) : EventQueue :=
  { q with
    inFlightChannels := insert id q.inFlightChannels
    inFlightDeadlines := q.inFlightDeadlines.insert id (now + q.inFlightDeadline)
    inFlightBatchSizes := q.inFlightBatchSizes.insert id size }

/-- The cancelled events of a channel leave the queue, with their reason. -/
def takeCancelled (q : EventQueue) (id : Uuid) : EventQueue :=
  { q with
    cancelledBatches := q.cancelledBatches.erase id
    cancelReasons := q.cancelReasons.erase id }

/-- The fallback: cancelled events are dispatched again as they were. -/
def flushCancelled (q : EventQueue) (now : Instant) (id : Uuid) : EventQueue × FlushBatch :=
  let cancelled := Map.bucket q.cancelledBatches id
  ((q.takeCancelled id).markInFlight now id cancelled.length,
    { channelId := id
      events := cancelled
      cancelledEvents := []
      cancelReason := q.cancelReasons.lookup id })

def flushQueued (q : EventQueue) (now : Instant) (id : Uuid) : EventQueue × FlushBatch :=
  let queue := Map.bucket q.queues id
  let drainCount := min maxBatchEvents queue.length
  let events := sortByCreatedAt ((queue.take drainCount).map QueuedEvent.toBatchEvent)
  let cancelledEvents := Map.bucket q.cancelledBatches id
  let drained := { q with queues := Map.setBucket q.queues id (queue.drop drainCount) }
  ((drained.takeCancelled id).markInFlight now id events.length,
    { channelId := id
      events := events
      cancelledEvents := cancelledEvents
      cancelReason := if cancelledEvents.isEmpty then none else q.cancelReasons.lookup id })

def flushNext (q : EventQueue) (orders : IterOrders) (now : Instant) :
    EventQueue × Option FlushBatch :=
  let q := q.expireInFlight orders.deadlines now
  match q.nextQueued orders.queues now with
  | some id =>
    let (q, batch) := q.flushQueued now id
    (q, some batch)
  | none =>
    match q.nextCancelled orders.cancelled with
    | some id =>
      let (q, batch) := q.flushCancelled now id
      (q, some batch)
    | none => (q, none)

def hasFlushableWork (q : EventQueue) (orders : IterOrders) (now : Instant) : EventQueue × Bool :=
  let q := q.expireInFlight orders.deadlines now
  (q, (orders.queues.keys q.queues).any (fun id => q.Flushable now id)
    || (orders.cancelled.keys q.cancelledBatches).any fun id => id ∉ q.inFlightChannels)

/-! ## Completion and retries -/

def markComplete (q : EventQueue) (now : Instant) (channelId : Uuid) : EventQueue :=
  let q := { q with
    inFlightChannels := q.inFlightChannels.erase channelId
    inFlightDeadlines := q.inFlightDeadlines.erase channelId
    inFlightBatchSizes := q.inFlightBatchSizes.erase channelId }
  match q.retryAfter.lookup channelId with
  | some deadline =>
    if deadline > now then q
    else
      { q with
        retryAfter := q.retryAfter.erase channelId
        retryCounts := q.retryCounts.erase channelId }
  | none => { q with retryCounts := q.retryCounts.erase channelId }

/-- The attempts counted for a channel. -/
def attempts (q : EventQueue) (channelId : Uuid) : Nat := (q.retryCounts.lookup channelId).getD 0

/-- Seconds before the next attempt, without jitter. -/
def cappedDelaySecs (attempt : Nat) : Nat :=
  min (baseRetryDelaySecs * 2 ^ min (attempt - 1) 6) maxRetryDelaySecs

/-- The events of a batch, in front of what is queued. -/
def pushFront (q : EventQueue) (batch : FlushBatch) : EventQueue :=
  { q with
    queues := q.queues.insert batch.channelId (enforceCap
      (batch.events.map (BatchEvent.toQueuedEvent batch.channelId)
        ++ Map.bucket q.queues batch.channelId)) }

/-- A failed batch is queued again, or handed back when it has failed too often. -/
def requeue (q : EventQueue) (now : Instant) (jitter : Nat → Duration) (batch : FlushBatch) :
    EventQueue × Option FlushBatch :=
  let attempt := q.attempts batch.channelId + 1
  if attempt > maxRetries then
    ({ q with
        retryCounts := q.retryCounts.erase batch.channelId
        retryAfter := q.retryAfter.erase batch.channelId },
      some batch)
  else
    let q := { q with retryCounts := q.retryCounts.insert batch.channelId attempt }
    let q := q.pushFront batch
    ({ q with
        retryAfter := q.retryAfter.insert batch.channelId
          (now + jitter (cappedDelaySecs attempt)) },
      none)

def requeuePreserveTimestamps (q : EventQueue) (batch : FlushBatch) : EventQueue :=
  q.pushFront batch

def requeueAsCancelled (q : EventQueue) (batch : FlushBatch) (reason : CancelReason) : EventQueue :=
  { q with
    cancelledBatches := q.cancelledBatches.insert batch.channelId
      (Map.bucket q.cancelledBatches batch.channelId ++ batch.cancelledEvents ++ batch.events)
    cancelReasons := q.cancelReasons.insert batch.channelId reason }

/-! ## Native steers -/

def markNativeSteerPending (q : EventQueue) (channelId : Uuid) (eventId : String) :
    EventQueue × Bool :=
  let queue := Map.bucket q.queues channelId
  match queue.find? (QueuedEvent.hasId eventId) with
  | none => (q, false)
  | some qe =>
    ({ q with
        queues := Map.setBucket q.queues channelId (queue.eraseP (QueuedEvent.hasId eventId))
        withheldNativeSteer := Map.pushBack q.withheldNativeSteer channelId qe },
      true)

def releaseNativeSteer (q : EventQueue) (channelId : Uuid) (eventId : String) : EventQueue :=
  let entries := Map.bucket q.withheldNativeSteer channelId
  match entries.find? (QueuedEvent.hasId eventId) with
  | none => q
  | some qe =>
    { q with
      withheldNativeSteer :=
        Map.setBucket q.withheldNativeSteer channelId (entries.eraseP (QueuedEvent.hasId eventId))
      queues := q.queues.insert channelId (enforceCap (qe :: Map.bucket q.queues channelId)) }

def removeEvent (q : EventQueue) (channelId : Uuid) (eventId : String) : EventQueue :=
  { q with
    withheldNativeSteer :=
      Map.retain q.withheldNativeSteer channelId fun qe => !QueuedEvent.hasId eventId qe
    queues := Map.retain q.queues channelId fun qe => !QueuedEvent.hasId eventId qe }

/-! ## Removal of a channel, and upkeep -/

def drainChannel (q : EventQueue) (channelId : Uuid) : EventQueue × List String :=
  ({ q with
      queues := q.queues.erase channelId
      retryAfter := q.retryAfter.erase channelId
      retryCounts := q.retryCounts.erase channelId
      cancelledBatches := q.cancelledBatches.erase channelId
      cancelReasons := q.cancelReasons.erase channelId
      withheldNativeSteer := q.withheldNativeSteer.erase channelId },
    (Map.bucket q.queues channelId).map fun qe => qe.event.id.toHex)

def compactExpiredState (q : EventQueue) (now : Instant) : EventQueue :=
  let q := { q with retryAfter := Map.filter q.retryAfter fun _ deadline => deadline > now }
  { q with
    retryCounts := Map.filter q.retryCounts fun ch _ =>
      ch ∈ q.retryAfter ∨ Map.bucket q.queues ch ≠ [] ∨ ch ∈ q.inFlightChannels }

end EventQueue

end Pkzz.Acp
