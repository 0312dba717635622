import Pkzz.Acp.Queue
import Pkzz.Lib.Machine

/-!
# Runs of the event queue

The queue together with what it handed out. `flush_next` hands a batch out; the batch comes
back through one of the three ways of requeueing it, or it is done with, and only then
`mark_complete` is due for its channel. That is the order in which `dispatch_pending`,
`handle_prompt_result` and the panic recovery call the queue. Everything else may happen at
any time, and time may pass between any two calls.

`accepted`, `departed` and `dropped` are proof-only ghost state. An event departs when
something decides that it is not to be delivered any more, or that it has been. It is
dropped when a batch goes back into the queue without it.

A batch whose in-flight deadline has passed stays outstanding: nothing tells the harness
that it will not come back after all.
-/

namespace Pkzz.Acp

open Pkzz.Core Pkzz.Lib

/-- Why an event is not going to be delivered any more. -/
inductive Fate where
  /-- Pushed out by the cap of its channel. -/
  | evicted
  /-- Discarded together with its channel. -/
  | drained
  /-- In a batch that completed, or that the caller gave up. -/
  | delivered
  /-- In a batch that failed too often. -/
  | deadLettered
  /-- Acknowledged as a native steer. -/
  | steered
  deriving DecidableEq

structure Departure where
  channelId : Uuid
  fate : Fate
  event : BatchEvent
  deriving DecidableEq

/-- How the turn of a batch ended. -/
inductive Closing where
  | finished
  | requeued
  | preserved
  | cancelled
  deriving DecidableEq

/-- All events of a batch. -/
def FlushBatch.requests (b : FlushBatch) : List BatchEvent := b.events ++ b.cancelledEvents

structure World where
  queue : EventQueue
  now : Instant
  /-- Handed out, and not back yet. -/
  outstanding : List FlushBatch
  /-- `mark_complete` is due for these channels. -/
  closing : List (Uuid × Closing)
  accepted : List QueuedEvent
  departed : List Departure
  dropped : List (Uuid × BatchEvent)

inductive Op where
  | tick (d : Duration)
  | push (event : QueuedEvent)
  | flushNext (orders : IterOrders)
  | hasFlushableWork (orders : IterOrders)
  /-- The turn succeeded, or the caller gives the batch up. -/
  | finish (batch : FlushBatch)
  | requeue (batch : FlushBatch) (jitter : Nat → Duration)
  | requeuePreserveTimestamps (batch : FlushBatch)
  | requeueAsCancelled (batch : FlushBatch) (reason : CancelReason)
  | markComplete (channelId : Uuid) (closing : Closing)
  | markNativeSteerPending (channelId : Uuid) (eventId : String)
  | releaseNativeSteer (channelId : Uuid) (eventId : String)
  | removeEvent (channelId : Uuid) (eventId : String)
  | extendInFlightDeadline (channelId : Uuid) (maxTurnSecs : Nat)
  | drainChannel (channelId : Uuid)
  | compactExpiredState

namespace EventQueue

/-! ## What the cap pushes out -/

/-- `push` makes room by dropping the oldest event. -/
def pushEvicts (q : EventQueue) (event : QueuedEvent) : List QueuedEvent :=
  let queue := Map.bucket q.queues event.channelId
  if queue.length ≥ maxPendingPerChannel then queue.take 1 else []

def recoveryEvicts (q : EventQueue) (channelId : Uuid) : List QueuedEvent :=
  match q.withheldNativeSteer.lookup channelId with
  | none => []
  | some entries => (entries ++ Map.bucket q.queues channelId).drop maxPendingPerChannel

def pushFrontEvicts (q : EventQueue) (batch : FlushBatch) : List QueuedEvent :=
  (batch.events.map (BatchEvent.toQueuedEvent batch.channelId)
    ++ Map.bucket q.queues batch.channelId).drop maxPendingPerChannel

def releaseEvicts (q : EventQueue) (channelId : Uuid) (eventId : String) : List QueuedEvent :=
  match (Map.bucket q.withheldNativeSteer channelId).find? (QueuedEvent.hasId eventId) with
  | none => []
  | some qe => (qe :: Map.bucket q.queues channelId).drop maxPendingPerChannel

/-! ## What a channel holds -/

def queuedAt (q : EventQueue) (c : Uuid) : List BatchEvent :=
  (Map.bucket q.queues c).map QueuedEvent.toBatchEvent

def withheldAt (q : EventQueue) (c : Uuid) : List BatchEvent :=
  (Map.bucket q.withheldNativeSteer c).map QueuedEvent.toBatchEvent

def cancelledAt (q : EventQueue) (c : Uuid) : List BatchEvent := Map.bucket q.cancelledBatches c

/-- Everything the queue holds for a channel, one entry for each position. -/
def heldAt (q : EventQueue) (c : Uuid) : List BatchEvent :=
  q.queuedAt c ++ (q.withheldAt c ++ q.cancelledAt c)

end EventQueue

/-- The events that `remove_event` takes away. -/
def removed (eventId : String) (l : List QueuedEvent) : List QueuedEvent :=
  l.filter (QueuedEvent.hasId eventId)

namespace World

def init (mode : DedupMode) (maxTurnDurationSecs : Nat) : World where
  queue := (EventQueue.new mode).withInFlightDeadline maxTurnDurationSecs
  now := 0
  outstanding := []
  closing := []
  accepted := []
  departed := []
  dropped := []

def depart (w : World) (c : Uuid) (fate : Fate) (l : List BatchEvent) : World :=
  { w with departed := w.departed ++ l.map (Departure.mk c fate) }

def drop (w : World) (c : Uuid) (l : List BatchEvent) : World :=
  { w with dropped := w.dropped ++ l.map (Prod.mk c) }

def evict (w : World) (c : Uuid) (l : List QueuedEvent) : World :=
  w.depart c .evicted (l.map QueuedEvent.toBatchEvent)

/-- The events that the recovery of withheld ones pushes out, channel by channel. -/
def evictExpired (w : World) (order : HashOrder Uuid) : World :=
  (w.queue.expiredChannels order w.now).foldl (fun v c => v.evict c (w.queue.recoveryEvicts c)) w

/-- The batch is no longer outstanding, and `mark_complete` is due. -/
def close (w : World) (batch : FlushBatch) (how : Closing) : World :=
  { w with
    outstanding := w.outstanding.erase batch
    closing := (batch.channelId, how) :: w.closing }

/-- One call of the queue; what the callers do not do is not enabled. -/
def step (w : World) : Op → Option World
  | .tick d => some { w with now := w.now + d }
  | .push event =>
    match w.queue.push event with
    | (q, true) =>
      some { w.evict event.channelId (w.queue.pushEvicts event) with
        queue := q
        accepted := w.accepted ++ [event] }
    | (q, false) => some { w with queue := q }
  | .flushNext orders =>
    match w.queue.flushNext orders w.now with
    | (q, some batch) =>
      some { w.evictExpired orders.deadlines with
        queue := q
        outstanding := batch :: w.outstanding }
    | (q, none) => some { w.evictExpired orders.deadlines with queue := q }
  | .hasFlushableWork orders =>
    some { w.evictExpired orders.deadlines with queue := (w.queue.hasFlushableWork orders w.now).1 }
  | .finish batch =>
    if batch ∈ w.outstanding then
      some ((w.close batch .finished).depart batch.channelId .delivered batch.requests)
    else none
  | .requeue batch jitter =>
    if batch ∈ w.outstanding then
      let w' := { w.close batch .requeued with queue := (w.queue.requeue w.now jitter batch).1 }
      match (w.queue.requeue w.now jitter batch).2 with
      | some dead => some (w'.depart dead.channelId .deadLettered dead.requests)
      | none =>
        some ((w'.evict batch.channelId (w.queue.pushFrontEvicts batch)).drop batch.channelId
          batch.cancelledEvents)
    else none
  | .requeuePreserveTimestamps batch =>
    if batch ∈ w.outstanding then
      let w' := { w.close batch .preserved with queue := w.queue.requeuePreserveTimestamps batch }
      some ((w'.evict batch.channelId (w.queue.pushFrontEvicts batch)).drop batch.channelId
        batch.cancelledEvents)
    else none
  | .requeueAsCancelled batch reason =>
    if batch ∈ w.outstanding then
      some { w.close batch .cancelled with queue := w.queue.requeueAsCancelled batch reason }
    else none
  | .markComplete channelId how =>
    if (channelId, how) ∈ w.closing then
      some { w with
        queue := w.queue.markComplete w.now channelId
        closing := w.closing.erase (channelId, how) }
    else none
  | .markNativeSteerPending channelId eventId =>
    some { w with queue := (w.queue.markNativeSteerPending channelId eventId).1 }
  | .releaseNativeSteer channelId eventId =>
    some { w.evict channelId (w.queue.releaseEvicts channelId eventId) with
      queue := w.queue.releaseNativeSteer channelId eventId }
  | .removeEvent channelId eventId =>
    some { w.depart channelId .steered
        ((removed eventId (Map.bucket w.queue.withheldNativeSteer channelId)
          ++ removed eventId (Map.bucket w.queue.queues channelId)).map QueuedEvent.toBatchEvent)
            with
      queue := w.queue.removeEvent channelId eventId }
  | .extendInFlightDeadline channelId maxTurnSecs =>
    some { w with queue := w.queue.extendInFlightDeadline w.now channelId maxTurnSecs }
  | .drainChannel channelId =>
    some { w.depart channelId .drained (w.queue.heldAt channelId) with
      queue := (w.queue.drainChannel channelId).1 }
  | .compactExpiredState => some { w with queue := w.queue.compactExpiredState w.now }

end World

/-- The queue as its callers drive it. -/
def dispatch : Machine World Op where
  step := World.step

end Pkzz.Acp
