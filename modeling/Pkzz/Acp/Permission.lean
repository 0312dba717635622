import Pkzz.Acp.Queue
import Pkzz.Lib.Machine

/-!
# Owner permissions

`buzz-acp`'s `permission.rs`. A request is registered under a binding and waits for the owner.
Whoever takes the entry of the request out of the map holds the only sender of its one-shot channel,
so there is at most one value in the channel. The waiter looks into the channel first and at the
clock second.
-/

namespace Pkzz.Acp.Permission

open Pkzz.Core Pkzz.Lib

/-- Process-wide identity scope of the permission bridge. -/
structure PermissionScope where
  agentPubkey : String
  relayUrl : String
  deriving DecidableEq

/-- Complete binding for one live permission request. -/
structure PermissionBinding where
  agentPubkey : String
  relayUrl : String
  sessionId : String
  requestId : Uuid
  deriving DecidableEq

/-- The only decisions accepted from the owner control channel. -/
inductive OwnerPermissionDecision
  | approveOnce
  | reject
  deriving DecidableEq

/-- Result of atomically dispatching an owner decision. -/
inductive PermissionDispatchStatus
  | delivered
  | notPending
  deriving DecidableEq

/-- Terminal condition observed by the waiter. -/
inductive PermissionWaitOutcome
  | decision (d : OwnerPermissionDecision)
  | expired
  | cancelled
  | unavailable
  deriving DecidableEq

/-- What of the observer's context the broker reads. -/
structure ObserverContext where
  channelId : Option String
  sessionId : Option String

/-! ## The one-shot channel -/

structure Oneshot where
  sent : Option PermissionWaitOutcome
  senderGone : Bool
  receiverGone : Bool

namespace Oneshot

def channel : Oneshot := ⟨none, false, false⟩

/-- `sender.send`, which takes the sender. It fails when there is no receiver any more. -/
def send (c : Oneshot) (outcome : PermissionWaitOutcome) : Oneshot × Bool :=
  if c.receiverGone then ({ c with senderGone := true }, false)
  else ({ c with sent := some outcome, senderGone := true }, true)

/-- The sender is dropped without sending, unless it has been taken. -/
def dropSender (c : Oneshot) : Oneshot := { c with senderGone := true }

def dropReceiver (c : Oneshot) : Oneshot := { c with receiverGone := true }

/-- One poll of the receiver: nothing yet, or what it resolves to. A lost sender reads as
`Unavailable`. -/
def poll (c : Oneshot) : Option PermissionWaitOutcome :=
  match c.sent with
  | some outcome => some outcome
  | none => if c.senderGone then some .unavailable else none

end Oneshot

/-! ## The broker -/

structure PendingPermission where
  /-- The channel that the entry holds the sender of. -/
  sender : Nat
  deadline : Instant
  context : ObserverContext

/-- The state behind the lock, with the channels its entries send on. -/
structure Broker where
  scope : Option PermissionScope
  pending : Map PermissionBinding PendingPermission
  channels : Nat → Oneshot

namespace Broker

/-- Some pending entry that is meant holds the sender of the channel. -/
def Sends (b : Broker) (which : PendingPermission → Bool) (n : Nat) : Prop :=
  ∃ key ∈ b.pending.keys, (Finmap.lookup key b.pending).any (fun p =>
    which p && decide (p.sender = n)) = true

instance (b : Broker) (which : PendingPermission → Bool) (n : Nat) : Decidable (b.Sends which n) :=
  inferInstanceAs (Decidable (∃ key ∈ b.pending.keys, _))

/-- Every entry that is meant is taken out of the map and sent the outcome, in whatever order. -/
def sendAll (b : Broker) (which : PendingPermission → Bool)
    (outcome : PermissionWaitOutcome) : Broker :=
  { b with
    pending := Map.filter b.pending fun _ p => !which p
    channels := fun n => if b.Sends which n then ((b.channels n).send outcome).1 else b.channels n }

/-- One entry is taken out of the map and sent the outcome. -/
def sendOne (b : Broker) (key : PermissionBinding) (sender : Nat)
    (outcome : PermissionWaitOutcome) : Broker × Bool :=
  ({ b with
      pending := Finmap.erase key b.pending
      channels := Function.update b.channels sender ((b.channels sender).send outcome).1 },
    ((b.channels sender).send outcome).2)

def drainLocked (b : Broker) (outcome : PermissionWaitOutcome) : Broker :=
  b.sendAll (fun _ => true) outcome

def enable (b : Broker) (scope : PermissionScope) : Broker :=
  if b.scope = some scope then b else { b.drainLocked .unavailable with scope := some scope }

def disable (b : Broker) : Broker := { b.drainLocked .unavailable with scope := none }

/-- One request with its binding, or `none` when it is refused. An id under which a request is
pending is none either: the source draws another one. -/
def register (b : Broker) (sender : Nat) (requestId : Uuid) (sessionId : String)
    (context : ObserverContext) (deadline : Instant) : Option (Broker × PermissionBinding) :=
  if sessionId = "" ∨ context.sessionId ≠ some sessionId then none
  else
    match b.scope with
    | none => none
    | some scope =>
      if ⟨scope.agentPubkey, scope.relayUrl, sessionId, requestId⟩ ∈ b.pending then none
      else
        some
          ({ b with
              pending := Finmap.insert ⟨scope.agentPubkey, scope.relayUrl, sessionId,
                requestId⟩ ⟨sender, deadline, context⟩ b.pending
              channels := Function.update b.channels sender Oneshot.channel },
            ⟨scope.agentPubkey, scope.relayUrl, sessionId, requestId⟩)

def resolve (b : Broker) (binding : PermissionBinding) (decision : OwnerPermissionDecision)
    (now : Instant) : Broker × PermissionDispatchStatus :=
  match Finmap.lookup binding b.pending with
  | none => (b, .notPending)
  | some pending =>
    if pending.deadline ≤ now then ((b.sendOne binding pending.sender .expired).1, .notPending)
    else if (b.sendOne binding pending.sender (.decision decision)).2 then
      ((b.sendOne binding pending.sender (.decision decision)).1, .delivered)
    else ((b.sendOne binding pending.sender (.decision decision)).1, .notPending)

def cancel (b : Broker) (binding : PermissionBinding) : Broker × PermissionDispatchStatus :=
  match Finmap.lookup binding b.pending with
  | none => (b, .notPending)
  | some pending =>
    ((b.sendOne binding pending.sender .cancelled).1,
      if (b.sendOne binding pending.sender .cancelled).2 then .delivered else .notPending)

def cancelChannel (b : Broker) (channelId : String) : Broker × Nat :=
  (b.sendAll (fun p => p.context.channelId = some channelId) .cancelled,
    (Map.filter b.pending fun _ p => p.context.channelId = some channelId).keys.card)

def remove (b : Broker) (binding : PermissionBinding) : Broker :=
  match Finmap.lookup binding b.pending with
  | none => b
  | some pending =>
    { b with
      pending := Finmap.erase binding b.pending
      channels := Function.update b.channels pending.sender (b.channels pending.sender).dropSender }

end Broker

/-! ## The waiter -/

/-- Which of its two branches a wait ended by. -/
inductive Ending
  | channel (outcome : PermissionWaitOutcome)
  | timer
  deriving DecidableEq

def Ending.outcome : Ending → PermissionWaitOutcome
  | channel outcome => outcome
  | timer => .expired

inductive WaitPoint
  /-- Registered; `wait` has not been polled. -/
  | idle
  /-- Suspended in the `select!`. -/
  | waiting
  /-- The receiver had nothing. The timer is polled next. -/
  | polled
  /-- The timer fired. The entry is removed next. -/
  | expiring
  /-- `wait` returns, and drops the receiver next. -/
  | returning (ending : Ending)
  /-- The receiver is dropped, and `drop` removes the entry next. -/
  | dropping (ending : Option Ending)
  /-- The caller has the outcome, or has dropped the wait. -/
  | gone (ending : Option Ending)
  deriving DecidableEq

structure PermissionWaiter where
  binding : PermissionBinding
  deadline : Instant
  point : WaitPoint
  /-- How often the scope had changed when the request was registered. Nothing reads it. -/
  epoch : Nat

/-! ## Every interleaving -/

/-- `resolve` answered `Delivered`. -/
structure Answer where
  request : Nat
  binding : PermissionBinding
  decision : OwnerPermissionDecision
  instant : Instant
  epoch : Nat
  deriving DecidableEq

/-- `wait` returned. -/
structure Returned where
  request : Nat
  ending : Ending
  instant : Instant
  epoch : Nat
  deriving DecidableEq

structure Rendezvous where
  broker : Broker
  waiters : Map Nat PermissionWaiter
  /-- The number of the next request. -/
  next : Nat
  now : Instant
  /-- How often the scope has changed, and what was answered and returned. Nothing reads these. -/
  epoch : Nat
  answers : List Answer
  outcomes : List Returned

def Rendezvous.init : Rendezvous := ⟨⟨none, ∅, fun _ => Oneshot.channel⟩, ∅, 0, 0, 0, [], []⟩

def Rendezvous.setPoint (s : Rendezvous) (request : Nat) (w : PermissionWaiter)
    (point : WaitPoint) : Rendezvous :=
  { s with waiters := Finmap.insert request { w with point := point } s.waiters }

inductive Move
  | tick (later : Instant)
  | enable (scope : PermissionScope)
  | disable
  | register (requestId : Uuid) (sessionId : String) (context : ObserverContext)
      (deadline : Instant)
  | resolve (binding : PermissionBinding) (decision : OwnerPermissionDecision)
  | cancel (binding : PermissionBinding)
  | cancelChannel (channelId : String)
  | pollReceiver (request : Nat)
  | pollTimer (request : Nat)
  | removeExpired (request : Nat)
  | dropReceiver (request : Nat)
  | removeDropped (request : Nat)
  | dropWaiter (request : Nat)

namespace Rendezvous

def onRegister (s : Rendezvous) (requestId : Uuid) (sessionId : String) (context : ObserverContext)
    (deadline : Instant) : Rendezvous :=
  match s.broker.register s.next requestId sessionId context deadline with
  | none => s
  | some (broker, binding) =>
    { s with
      broker := broker
      waiters := Finmap.insert s.next ⟨binding, deadline, .idle, s.epoch⟩ s.waiters
      next := s.next + 1 }

def onResolve (s : Rendezvous) (binding : PermissionBinding) (decision : OwnerPermissionDecision) :
    Rendezvous :=
  { s with
    broker := (s.broker.resolve binding decision s.now).1
    answers :=
      match Finmap.lookup binding s.broker.pending, (s.broker.resolve binding decision s.now).2 with
      | some pending, .delivered => ⟨pending.sender, binding, decision, s.now, s.epoch⟩ :: s.answers
      | _, _ => s.answers }

/-- What the waiter does next at the point it is at, where the move is one of those that it can make
there. -/
def onWaiter (s : Rendezvous) (request : Nat) (w : PermissionWaiter) : Move → Option Rendezvous
  | .pollReceiver _ =>
    if w.point = .idle ∨ w.point = .waiting then
      match (s.broker.channels request).poll with
      | some outcome => some (s.setPoint request w (.returning (.channel outcome)))
      | none => some (s.setPoint request w .polled)
    else none
  | .pollTimer _ =>
    if w.point = .polled then
      if w.deadline ≤ s.now then
        some (s.setPoint request w .expiring) else some (s.setPoint request w .waiting)
    else none
  | .removeExpired _ =>
    if w.point = .expiring then
      some { s.setPoint request w (.returning .timer) with broker := s.broker.remove w.binding }
    else none
  | .dropReceiver _ =>
    let channels := Function.update s.broker.channels request
        (s.broker.channels request).dropReceiver
    match w.point with
    | .returning ending =>
      some { s.setPoint request w (.dropping (some ending)) with
        broker := { s.broker with channels := channels } }
    | .waiting => some { s.setPoint request w (.dropping none) with
        broker := { s.broker with channels := channels } }
    | _ => none
  | .removeDropped _ =>
    match w.point with
    | .dropping none => some
        { s.setPoint request w (.gone none) with broker := s.broker.remove w.binding }
    | .dropping (some ending) =>
      some { s.setPoint request w (.gone (some ending)) with
              broker := s.broker.remove w.binding
              outcomes := ⟨request, ending, s.now, s.epoch⟩ :: s.outcomes }
    | _ => none
  -- a wait that was never polled: `drop` comes before the receiver, and nobody sends in between
  | .dropWaiter _ =>
    if w.point = .idle then
      some { s.setPoint request w (.gone none) with
              broker := { s.broker.remove w.binding with
                channels := Function.update (s.broker.remove w.binding).channels request
                  ((s.broker.remove w.binding).channels request).dropReceiver } }
    else none
  | _ => none

end Rendezvous

/-- The waiter a move is made by. -/
def Move.waiter : Move → Option Nat
  | pollReceiver request | pollTimer request | removeExpired request | dropReceiver
      request | removeDropped request
  | dropWaiter request => some request
  | _ => none

/-- Broker calls, polls and drops in any order. -/
def rendezvous : Machine Rendezvous Move where
  step s move :=
    match move with
    | .tick later => if s.now ≤ later then some { s with now := later } else none
    | .enable scope =>
      some { s with
              broker := s.broker.enable scope
              epoch := if s.broker.scope = some scope then s.epoch else s.epoch + 1 }
    | .disable => some { s with broker := s.broker.disable, epoch := s.epoch + 1 }
    | .register requestId sessionId context deadline =>
        some (s.onRegister requestId sessionId context deadline)
    | .resolve binding decision => some (s.onResolve binding decision)
    | .cancel binding => some { s with broker := (s.broker.cancel binding).1 }
    | .cancelChannel channelId => some { s with broker := (s.broker.cancelChannel channelId).1 }
    | waiterMove =>
      match waiterMove.waiter with
      | none => none
      | some request => (Finmap.lookup request s.waiters).bind fun w =>
          s.onWaiter request w waiterMove

/-- Every id that `new_v4` draws is one it has not drawn before. -/
def DrawsFresh (s : Rendezvous) : Move → Prop
  | .register requestId _ _ _ => ∀ (request : Nat) (w : PermissionWaiter),
      Finmap.lookup request s.waiters = some w → w.binding.requestId ≠ requestId
  | _ => True

end Pkzz.Acp.Permission
