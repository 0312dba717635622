import Pkzz.Db.Replace

/-!
# Push leases

`buzz-db`'s `accept_lease_event`, `replace_lease` and `disable_endpoint_generation` on the tables
`push_leases` and `events` (kind 30350 only). A row of `push_leases` has its endpoint columns
exactly when it is active, which a CHECK of the table asks for; here the columns are one optional
value.

A call is one transaction, and one that does not commit leaves the tables as they were. The clock is
an argument. The matcher's queue, `updated_at` and the columns of `events` that nothing here reads
are left out.
-/

namespace Pkzz.Db.Push

open Pkzz.Core Pkzz.Lib
open Pkzz.Db.Thread (DateTime DbError byteaKey)

/-! ## Rows -/

/-- Common signed-event ordering fields for a lease replacement. -/
structure LeaseVersion where
  sourceEventId : List UInt8
  sourceCreatedAt : Int
  generation : Int
  expiresAt : Int
  deriving DecidableEq

/-- Effective fields for an active lease. -/
structure ActiveLease where
  appProfile : String
  endpointHash : List UInt8
  endpointGrant : String
  maxClass : String
  subscriptions : Json

/-- The primary key of `push_leases`. -/
structure Address where
  communityId : CommunityId
  author : List UInt8
  installationId : String
  deriving DecidableEq

/-- A row of `push_leases`. -/
structure Lease where
  address : Address
  version : LeaseVersion
  /-- The endpoint columns, which are there when `active` is set. -/
  active : Option ActiveLease
  endpointEnabled : Bool

/-- A row of `events` of kind 30350. -/
structure LeaseEvent where
  communityId : CommunityId
  id : EventId
  pubkey : PublicKey
  createdAt : DateTime
  dTag : String
  /-- `deleted_at` is set. -/
  deleted : Bool
  deriving DecidableEq

def LeaseEvent.address (e : LeaseEvent) : Address := ⟨e.communityId, e.pubkey.bytes, e.dTag⟩

def LeaseEvent.markDeleted (e : LeaseEvent) : LeaseEvent := { e with deleted := true }

def LeaseEvent.key (e : LeaseEvent) : CommunityId × DateTime × EventId :=
  (e.communityId, e.createdAt, e.id)

/-- The CHECKs of the table on one row. -/
def Lease.checks (l : Lease) : Bool :=
  l.address.author.length == 32
    && (1 ≤ Str.len l.address.installationId && Str.len l.address.installationId ≤ 64)
    && l.version.sourceEventId.length == 32
    && decide (0 < l.version.generation)
    && l.active.all fun a =>
      a.endpointHash.length == 32 && ["silent", "default", "time_sensitive",
      "urgent"].contains a.maxClass

/-- `wins_event`: the order of addressable events. -/
def LeaseVersion.winsEvent (incoming current : LeaseVersion) : Bool :=
  decide (incoming.sourceCreatedAt > current.sourceCreatedAt)
    || (decide (incoming.sourceCreatedAt = current.sourceCreatedAt)
      && decide (byteaKey incoming.sourceEventId < byteaKey current.sourceEventId))

structure Tables where
  leases : List Lease
  events : List LeaseEvent
  leases_pkey : (leases.map Lease.address).Nodup

namespace Tables

def empty : Tables := ⟨[], [], List.nodup_nil⟩

def leaseAt (t : Tables) (a : Address) : Option Lease := t.leases.find? fun l => l.address = a

/-- The live lease events of an address. -/
def liveEvents (t : Tables) (a : Address) : List LeaseEvent := t.events.filter fun e =>
    e.address = a && !e.deleted

/-- The active leases of an author. -/
def activeOf (t : Tables) (communityId : CommunityId) (author : List UInt8) : List Lease :=
  t.leases.filter fun l =>
    l.address.communityId = communityId && l.address.author == author && l.active.isSome

/-! ## Statements -/

inductive Violation where
  | check
  | sourceEventKey
  | endpointUnique
  deriving DecidableEq

/-- Two rows of one author with one endpoint. -/
def sameEndpoint (l : Lease) (a : ActiveLease) : Bool :=
  l.active.any fun b => b.appProfile == a.appProfile && b.endpointHash == a.endpointHash

/-- The unique indexes a row would violate beside the others. -/
def uniqueViolation (t : Tables) (l : Lease) : Option Violation :=
  if t.leases.any fun r => r.address ≠ l.address && r.address.communityId = l.address.communityId
      && r.version.sourceEventId == l.version.sourceEventId then some .sourceEventKey
  else if t.leases.any fun r =>
    r.address ≠ l.address && r.address.communityId = l.address.communityId
      && r.address.author == l.address.author && l.active.any (sameEndpoint r) then
        some .endpointUnique
  else none

/-- The row in place of the one with its primary key, if there is one. -/
def put (t : Tables) (l : Lease) : Tables :=
  { t with
    leases := t.leases.filter (fun r => r.address ≠ l.address) ++ [l]
    leases_pkey := by
      rw [List.map_append, List.map_singleton]
      refine List.Nodup.append ?_ (List.nodup_singleton _) (List.disjoint_singleton.mpr ?_)
      · exact List.Sublist.nodup (List.Sublist.map Lease.address List.filter_sublist) t.leases_pkey
      · intro hmem
        obtain ⟨r, hr, heq⟩ := List.mem_map.mp hmem
        simpa [heq] using (List.mem_filter.mp hr).2 }

/-- `INSERT INTO push_leases .. ON CONFLICT (community_id, author, installation_id) DO UPDATE`. -/
def upsert (t : Tables) (l : Lease) : Except Violation Tables :=
  if !l.checks then .error .check
  else
    match t.uniqueViolation l with
    | some v => .error v
    | none => .ok (t.put l)

/-- `UPDATE events SET deleted_at=now() WHERE .. kind=30350 .. AND deleted_at IS NULL`. -/
def retireEvents (t : Tables) (a : Address) : Tables :=
  { t with events := t.events.map fun e => if e.address = a then e.markDeleted else e }

end Tables

open Tables

/-! ## `accept_lease_event` -/

inductive AcceptLeaseOutcome where
  | accepted
  | staleEvent
  | staleGeneration
  | endpointAlreadyLeased
  | leaseQuotaExceeded
  | sourceEventCollision
  | constraintViolation
  deriving DecidableEq

/-- `constraint_acceptance_outcome`, of an integrity violation. -/
def constraintAcceptanceOutcome : Violation → AcceptLeaseOutcome
  | .endpointUnique => .endpointAlreadyLeased
  | .sourceEventKey => .sourceEventCollision
  | .check => .constraintViolation

/-- The lease row that is bound to the source event. -/
def sourceRow (t : Tables) (communityId : CommunityId) (version : LeaseVersion) : Option Lease :=
  t.leases.find? fun l =>
    l.address.communityId = communityId && l.version.sourceEventId == version.sourceEventId

/-- The leases the cleanup of expired leases is after. It clears `active` and leaves the endpoint
columns, which the CHECK on them refuses, so the statement fails where it finds one. -/
def expiredLeases (t : Tables) (communityId : CommunityId) (author : List UInt8) (now : Int) :
    List Lease :=
  (t.activeOf communityId author).filter fun l => decide (l.version.expiresAt ≤ now)

/-- The author-wide checks of an active lease. -/
def authorCheck (t : Tables) (a : Address) (active : ActiveLease) (maxActiveLeases : Int) :
    Option AcceptLeaseOutcome :=
  let others := (t.activeOf a.communityId a.author).filter fun l =>
    l.address.installationId ≠ a.installationId
  if (others.length : Int) ≥ maxActiveLeases then some .leaseQuotaExceeded
  else if others.any fun l => sameEndpoint l active then some .endpointAlreadyLeased
  else none

/-- The last part of the transaction: the source event and the lease row. -/
def storeLease (t : Tables) (communityId : CommunityId) (event : Event) (installationId : String)
    (version : LeaseVersion)
    (active : Option ActiveLease) : Except DbError (Tables × AcceptLeaseOutcome) :=
  let a : Address := ⟨communityId, event.pubkey.bytes, installationId⟩
  let retired := t.retireEvents a
  match DateTime.fromTimestamp version.sourceCreatedAt with
  | none => .error (.invalidTimestamp version.sourceCreatedAt)
  | some createdAt =>
    let row : LeaseEvent := ⟨communityId, event.id, event.pubkey, createdAt, installationId, false⟩
    if row.key ∈ retired.events.map LeaseEvent.key then .ok (t, .constraintViolation)
    else
      match ({ retired with
        events := retired.events ++ [row] } : Tables).upsert ⟨a, version, active, true⟩ with
      | .error v => .ok (t, constraintAcceptanceOutcome v)
      | .ok t' => .ok (t', .accepted)

/-- `accept_lease_event`; `now` is in Unix seconds. -/
def acceptLeaseEvent (t : Tables) (now : Int) (communityId : CommunityId) (event : Event)
    (installationId : String)
    (version : LeaseVersion) (active : Option ActiveLease) (maxActiveLeases : Int) :
    Except DbError (Tables × AcceptLeaseOutcome) :=
  let author := event.pubkey.bytes
  let a : Address := ⟨communityId, author, installationId⟩
  match sourceRow t communityId version with
  | some l =>
    if l.address.author ≠ author ∨ l.address.installationId ≠ installationId then
      .ok (t, .sourceEventCollision)
    else .ok (t, .staleEvent)
  | none =>
    let stale :=
      match t.leaseAt a with
      | none => none
      | some current =>
        if !version.winsEvent current.version then some AcceptLeaseOutcome.staleEvent
        else if version.generation ≤ current.version.generation then some .staleGeneration
        else none
    match stale with
    | some outcome => .ok (t, outcome)
    | none =>
      if !(expiredLeases t communityId author now).isEmpty then
        .error (.sqlx "new row for relation push_leases violates a check constraint")
      else
        match active.bind fun active => authorCheck t a active maxActiveLeases with
        | some outcome => .ok (t, outcome)
        | none => storeLease t communityId event installationId version active

/-! ## `replace_lease` -/

inductive ReplaceLeaseOutcome where
  | accepted
  | staleEvent
  | staleGeneration
  deriving DecidableEq

/-- `replace_lease`: the predicate on the conflicting row is the acceptance state machine. -/
def replaceLease (t : Tables) (communityId : CommunityId) (author : List UInt8)
    (installationId : String)
    (version : LeaseVersion) (active : Option ActiveLease) :
    Except DbError (Tables × ReplaceLeaseOutcome) :=
  let l : Lease := ⟨⟨communityId, author, installationId⟩, version, active, true⟩
  if !l.checks then .error (.sqlx "new row for relation push_leases violates a check constraint")
  else
    let refused :=
      match t.leaseAt l.address with
      | none => none
      | some current =>
        if version.winsEvent current.version &&
          decide (version.generation > current.version.generation) then none
        else if !version.winsEvent current.version then some ReplaceLeaseOutcome.staleEvent
        else some .staleGeneration
    match refused with
    | some outcome => .ok (t, outcome)
    | none =>
      match t.upsert l with
      | .error _ => .error (.sqlx "duplicate key value violates a unique constraint")
      | .ok t' => .ok (t', .accepted)

/-! ## `disable_endpoint_generation` -/

/-- The rows the statement hits. -/
def endpointGeneration (a : Address) (generation : Int) (l : Lease) : Bool :=
  l.address = a && decide (l.version.generation = generation) && l.active.isSome &&
    l.endpointEnabled

/-- What the statement makes of a row. -/
def disableRow (a : Address) (generation : Int) (l : Lease) : Lease :=
  if endpointGeneration a generation l then { l with endpointEnabled := false } else l

@[simp] theorem disableRow_address (a : Address) (generation : Int) (l : Lease) :
    (disableRow a generation l).address = l.address := by
  rw [disableRow]
  split <;> rfl

@[simp] theorem disableRow_version (a : Address) (generation : Int) (l : Lease) :
    (disableRow a generation l).version = l.version := by
  rw [disableRow]
  split <;> rfl

@[simp] theorem disableRow_active (a : Address) (generation : Int) (l : Lease) :
    (disableRow a generation l).active = l.active := by
  rw [disableRow]
  split <;> rfl

/-- `disable_endpoint_generation`, and whether a row was hit. -/
def disableEndpointGeneration (t : Tables) (a : Address) (generation : Int) : Tables × Bool :=
  ({ t with
      leases := t.leases.map (disableRow a generation)
      leases_pkey := by
        have haddr : (t.leases.map (disableRow a generation)).map Lease.address =
            t.leases.map Lease.address := by
          rw [List.map_map]
          exact List.map_congr_left fun l _ => disableRow_address a generation l
        rw [haddr]
        exact t.leases_pkey }, t.leases.any (endpointGeneration a generation))

end Pkzz.Db.Push
