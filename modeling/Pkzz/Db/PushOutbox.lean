import Pkzz.Db.Push

/-!
# The wake outbox

`buzz-db`'s `enqueue_wakes`, `claim_due_wakes`, `revalidate_wake_for_send`, `complete_wake`,
`retry_wake` and `fail_wake` on the tables `push_wake_outbox`, `push_leases` and `events`. A job
carries the address, the generation and the endpoint of the lease it was made for, but what tells
jobs apart is the endpoint and the event.

Every call is one transaction. `now()` is an argument, in microseconds; the ids of new jobs and of
claims are arguments, and so are the rows that `SKIP LOCKED` passes over.
-/

namespace Pkzz.Db.Push

open Pkzz.Core Pkzz.Lib
open Pkzz.Db.Thread (DbError byteaKey)

/-! ## Rows -/

/-- `state` of a row of `push_wake_outbox`. -/
inductive WakeState where
  | pending
  | sending
  | delivered
  | failed
  deriving DecidableEq

/-- A row of `push_wake_outbox`. -/
structure Wake where
  communityId : CommunityId
  id : Uuid
  author : List UInt8
  installationId : String
  leaseGeneration : Int
  endpointHash : List UInt8
  eventId : List UInt8
  cls : String
  expiresAt : Int
  state : WakeState
  attempts : Int
  nextAttemptAt : Int
  leaseUntil : Option Int
  claimId : Option Uuid
  createdAt : Int
  deriving DecidableEq

namespace Wake

/-- The primary key. -/
def key (w : Wake) : CommunityId × Uuid := (w.communityId, w.id)

/-- `UNIQUE (community_id, endpoint_hash, event_id)`. -/
def dedupKey (w : Wake) : CommunityId × List UInt8 × List UInt8 :=
  (w.communityId, w.endpointHash, w.eventId)

/-- The lease the job was made for. -/
def address (w : Wake) : Address := ⟨w.communityId, w.author, w.installationId⟩

def terminal (w : Wake) : Bool := w.state == .delivered || w.state == .failed

/-- The row after a claim. -/
def claimed (leaseUntil : Int) (claimId : Uuid) (w : Wake) : Wake :=
  { w with
    state := .sending, claimId := some claimId, leaseUntil := some leaseUntil,
    attempts := w.attempts + 1 }

/-- The job is in the hands of this claim. -/
def heldBy (communityId : CommunityId) (id claimId : Uuid) (w : Wake) : Bool :=
  decide (w.communityId = communityId) && decide (w.id = id) && decide (w.claimId = some claimId) &&
    w.state == .sending

/-- The CHECKs of the table on the columns a request gives. -/
def checks (w : Wake) : Bool :=
  w.eventId.length == 32 && ["silent", "default", "time_sensitive", "urgent"].contains w.cls

end Wake

/-- How a claim ends. -/
inductive Ending where
  | complete
  | retry (nextAttemptAt : Int)
  | fail
  deriving DecidableEq

def Ending.applyTo : Ending → Wake → Wake
  | complete, w => { w with state := .delivered, claimId := none, leaseUntil := none }
  | retry nextAttemptAt, w =>
      { w with state := .pending, nextAttemptAt, claimId := none, leaseUntil := none }
  | fail, w => { w with state := .failed, claimId := none, leaseUntil := none }

/-- A live row of `events`, as the outbox joins it. -/
structure SourceEvent where
  communityId : CommunityId
  id : List UInt8
  channelId : Option Uuid
  deriving DecidableEq

structure Outbox where
  tables : Tables
  jobs : List Wake
  sources : List SourceEvent

def Outbox.empty : Outbox := ⟨.empty, [], []⟩

/-- `EXTRACT(EPOCH FROM now())::bigint`, which rounds. -/
def epochSecs (now : Int) : Int := (now + 500000) / 1000000

/-- An active, enabled and unexpired lease. -/
def Lease.effective (l : Lease) (now : Int) : Bool :=
  l.active.isSome && l.endpointEnabled && decide (l.version.expiresAt > epochSecs now)

namespace Outbox

/-- The lease that the join of a job with `push_leases` finds: of its generation and its endpoint.
-/
def leaseOf (o : Outbox) (w : Wake) : Option Lease :=
  (o.tables.leaseAt w.address).filter fun l =>
    decide (l.version.generation = w.leaseGeneration) && l.active.any fun a =>
      a.endpointHash == w.endpointHash

def sourceOf (o : Outbox) (w : Wake) : Option SourceEvent :=
  o.sources.find? fun e => e.communityId = w.communityId && e.id == w.eventId

/-- What claiming and sending ask of a job beside its claim. -/
def deliverable (o : Outbox) (now : Int) (w : Wake) : Bool :=
  (o.leaseOf w).any (fun l => l.effective now) && (o.sourceOf w).isSome &&
    decide (w.expiresAt > epochSecs now)

/-! ## Claiming -/

/-- A claimed job. -/
structure Claimed where
  communityId : CommunityId
  id : Uuid
  claimId : Uuid
  eventId : List UInt8
  channelId : Option Uuid
  author : List UInt8
  installationId : String
  leaseGeneration : Int
  endpointGrant : String
  cls : String
  expiresAt : Int
  attempt : Int
  deriving DecidableEq

/-- `row_to_claimed_wake`. -/
def toClaimed (o : Outbox) (w : Wake) : Option Claimed :=
  match o.leaseOf w, o.sourceOf w, w.claimId with
  | some l, some e, some claimId =>
    l.active.map fun a =>
      {
        communityId := w.communityId, id := w.id, claimId, eventId := w.eventId,
        channelId := e.channelId
        author := w.author, installationId := w.installationId, leaseGeneration := w.leaseGeneration
        endpointGrant := a.endpointGrant, cls := w.cls, expiresAt := w.expiresAt, attempt :=
          w.attempts }
  | _, _, _ => none

/-- A job that is due: pending, or in the hands of a worker whose time is up. -/
def due (o : Outbox) (communityId : CommunityId) (now : Int) (w : Wake) : Bool :=
  decide (w.communityId = communityId) && o.deliverable now w && decide (w.nextAttemptAt ≤ now)
    && (w.state == .pending || (w.state == .sending && w.leaseUntil.any fun u => decide (u < now)))

/-- `ORDER BY o.next_attempt_at, o.created_at, o.id`. -/
def dueKey (w : Wake) : Int ×ₗ (Int ×ₗ List Nat) :=
  toLex (w.nextAttemptAt, toLex (w.createdAt, byteaKey w.id.bytes))

/-- The rows the statement locks. -/
def candidates (o : Outbox) (communityId : CommunityId) (limit : Int) (now : Int)
    (locked : List Uuid) : List Uuid :=
  ((Keyset.ordered dueKey (o.jobs.filter fun w =>
    o.due communityId now w && !locked.contains w.id)).take limit.toNat).map Wake.id

/-- Whether a claim takes the row. -/
def taken (o : Outbox) (communityId : CommunityId) (limit now : Int) (locked : List Uuid)
    (w : Wake) : Bool :=
  decide (w.communityId = communityId) && (o.candidates communityId limit now locked).contains w.id

/-- `claim_due_wakes`. -/
def claimDueWakes (o : Outbox) (communityId : CommunityId) (limit now leaseUntil : Int)
    (claimId : Uuid) (locked : List Uuid) : Outbox × List Claimed :=
  if limit < 0 then (o, [])
  else
    let takes := o.taken communityId limit now locked
    ({ o with
      jobs := o.jobs.map fun w => if takes w then Wake.claimed leaseUntil claimId w else w },
      (o.jobs.filter takes).filterMap fun w => o.toClaimed (Wake.claimed leaseUntil claimId w))

/-! ## Sending -/

/-- Outcome of the send-time check. -/
inductive RevalidateOutcome where
  | deliver (wake : Claimed)
  | suppressed
  deriving DecidableEq

/-- `revalidate_wake_for_send`. -/
def revalidateWakeForSend (o : Outbox) (communityId : CommunityId) (id claimId : Uuid) (now : Int) :
    RevalidateOutcome :=
  match o.jobs.find? fun w =>
      Wake.heldBy communityId id claimId w && w.leaseUntil.any (fun u => decide (now ≤ u)) &&
        o.deliverable now w with
  | some w =>
    match o.toClaimed w with
    | some wake => .deliver wake
    | none => .suppressed
  | none => .suppressed

/-- The three statements that end a claim, and whether a row was hit. -/
def endClaim (o : Outbox) (ending : Ending) (communityId : CommunityId) (id claimId : Uuid) :
    Outbox × Bool :=
  ({ o with
    jobs := o.jobs.map fun w =>
          if Wake.heldBy communityId id claimId w then ending.applyTo w else w },
    (o.jobs.countP (Wake.heldBy communityId id claimId)) == 1)

/-- `complete_wake`. -/
def completeWake (o : Outbox) : CommunityId → Uuid → Uuid → Outbox × Bool := o.endClaim .complete

/-- `retry_wake`. -/
def retryWake (o : Outbox) (communityId : CommunityId) (id claimId : Uuid) (nextAttemptAt : Int) :
    Outbox × Bool :=
  o.endClaim (.retry nextAttemptAt) communityId id claimId

/-- `fail_wake`. -/
def failWake (o : Outbox) : CommunityId → Uuid → Uuid → Outbox × Bool := o.endClaim .fail

/-! ## Enqueueing -/

/-- A request of the matcher, with the id `gen_random_uuid()` gives a row made of it. -/
structure WakeRequest where
  author : List UInt8
  installationId : String
  leaseGeneration : Int
  eventId : List UInt8
  cls : String
  expiresAt : Int
  newId : Uuid

inductive EnqueueOutcome where
  | enqueued (id : Uuid)
  | duplicate (id : Uuid)
  | inactiveLease
  deriving DecidableEq

/-- The endpoint of the current lease, if the request names its generation. -/
def resolve (o : Outbox) (communityId : CommunityId) (now : Int) (r : WakeRequest) :
    Option (List UInt8) :=
  match (o.tables.leaseAt ⟨communityId, r.author,
      r.installationId⟩).filter fun l => l.effective now with
  | some l => if l.version.generation = r.leaseGeneration then
      l.active.map ActiveLease.endpointHash else none
  | none => none

/-- The row a request becomes. -/
def newWake (communityId : CommunityId) (now : Int) (r : WakeRequest)
    (endpointHash : List UInt8) : Wake :=
  { communityId, id := r.newId, author := r.author, installationId := r.installationId
    leaseGeneration := r.leaseGeneration, endpointHash, eventId := r.eventId, cls :=
      r.cls, expiresAt := r.expiresAt
    state := .pending, attempts := 0, nextAttemptAt := now, leaseUntil := none, claimId :=
      none, createdAt := now }

/-- One row of the multi-row
`INSERT .. ON CONFLICT (community_id, endpoint_hash, event_id) DO NOTHING`. -/
def insertWake (jobs : List Wake) (w : Wake) : Except DbError (List Wake × Bool) :=
  if !w.checks then .error
    (.sqlx "new row for relation push_wake_outbox violates a check constraint")
  else if jobs.any fun v => v.dedupKey == w.dedupKey then .ok (jobs, false)
  else if jobs.any fun v => v.key == w.key then
    .error (.sqlx "duplicate key value violates unique constraint")
  else .ok (jobs ++ [w], true)

/-- The rows after the insert, and the outcome of each request: the first one that made a row
reports it, every later one of its key reports a duplicate, as the set-wise lookup finds it. -/
def insertWakes (communityId : CommunityId) (now : Int) :
    List Wake → List (WakeRequest × Option (List UInt8)) →
      Except DbError (List Wake × List EnqueueOutcome)
  | jobs, [] => .ok (jobs, [])
  | jobs, (_, none) :: rest => (insertWakes communityId now jobs rest).map fun r =>
      (r.1, .inactiveLease :: r.2)
  | jobs, (request, some endpointHash) :: rest =>
    let w := newWake communityId now request endpointHash
    match insertWake jobs w with
    | .error e => .error e
    | .ok (jobs', true) => (insertWakes communityId now jobs' rest).map fun r =>
        (r.1, .enqueued w.id :: r.2)
    | .ok (jobs', false) =>
      match jobs'.find? fun v => v.dedupKey == w.dedupKey with
      | some v => (insertWakes communityId now jobs' rest).map fun r =>
          (r.1, .duplicate v.id :: r.2)
      | none => .error (.invalidData "wake enqueue resolved neither insert nor duplicate")

/-- `enqueue_wakes`; `enqueue_wake` is a batch of one. -/
def enqueueWakes (o : Outbox) (communityId : CommunityId) (now : Int)
    (requests : List WakeRequest) : Except DbError (Outbox × List EnqueueOutcome) :=
  match insertWakes communityId now o.jobs (requests.map fun r => (r,
      o.resolve communityId now r)) with
  | .error e => .error e
  | .ok (jobs, outcomes) => .ok ({ o with jobs }, outcomes)

end Outbox

end Pkzz.Db.Push
