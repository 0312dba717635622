import Pkzz.Db.ReplicaFence
import Pkzz.Relay.CountQuery

/-!
# Where a history query is read

`route_read` and `query_events_routed` of `buzz-db`'s `lib.rs`. A query goes to the replica
only where its predicate is met by the heartbeat the reader session proves; every doubt sends
it to the writer. What the replica shows is the beginning of the writer's log that it has
replayed.
-/

namespace Pkzz.Relay

open Pkzz.Core Pkzz.Db Pkzz.Lib

def FENCE_STALENESS : Int := seconds 30

/-- The newest entry, unless the probe has stopped. -/
def newest (f : ReplicaFence) (now : Int) : Option TokenEntry :=
  f.ring.getLast?.filter fun entry => decide (now - entry.committedAt ≤ FENCE_STALENESS)

/-- An `upper` is in seconds, as the timestamps of a filter are. -/
inductive RoutePredicate where
  | bounded
  | covered (upper : Int)
  | coveredPostVerified
  | boundedOrCovered (upper : Int)
  deriving DecidableEq

def RoutePredicate.forQuery (q : EventQuery) (routingEnabled : Bool) : RoutePredicate :=
  if !routingEnabled then .bounded
  else match q.channelId, q.until' with
    | some _, some upper => .boundedOrCovered upper
    | _, _ => .bounded

/-- `Db`, as far as routing reads it: `read_pool` and `replica_read_max_age`. -/
structure RouteConfig where
  hasReadPool : Bool
  replicaReadMaxAge : Option Int

/-- What one routed read meets. -/
structure ReadSession where
  fence : ReplicaFence
  now : Int
  /-- What `proved_reader` gives, and when. -/
  proved : Option TokenEntry
  provedAt : Int
  /-- How much of the log the session has replayed. -/
  replayed : Nat
  /-- The query fails on the replica. -/
  replicaFails : Bool

inductive RouteDecision where
  | replica (entry : TokenEntry) (reason : String)
  | writer
  deriving DecidableEq

namespace RouteConfig

/-- `entry.committed_at.elapsed() <= budget`. -/
def boundedHolds (db : RouteConfig) (entry : TokenEntry) (now : Int) : Bool :=
  db.replicaReadMaxAge.any fun budget => decide (now - entry.committedAt ≤ budget)

def coveredHolds (entry : TokenEntry) (upper : Int) : Bool :=
  decide (seconds upper ≤ entry.fenceWall)

/-- Whether an entry satisfies the predicate, and by which arm. -/
def verdict (db : RouteConfig) (predicate : RoutePredicate) (entry : TokenEntry) (now : Int) :
    Option String :=
  match predicate with
  | .bounded => if db.boundedHolds entry now then some "fresh" else none
  | .covered upper => if coveredHolds entry upper then some "covered" else none
  | .coveredPostVerified => some "covered"
  | .boundedOrCovered upper =>
    if coveredHolds entry upper then some "covered" else if db.boundedHolds entry now then
      some "fresh" else none

def routeRead (db : RouteConfig) (predicate : RoutePredicate) (session : ReadSession) :
    RouteDecision :=
  if !db.hasReadPool then .writer
  else match newest session.fence session.now with
    | none => .writer
    | some newest =>
      -- the precheck asks the newest entry what the proved one is asked below
      if (db.verdict predicate newest session.now).isNone then .writer
      else match session.proved with
        | none => .writer
        | some entry =>
          match db.verdict predicate entry session.provedAt with
          | some reason => .replica entry reason
          | none => .writer

/-- The rows the query is answered from. -/
def rowsRead (db : RouteConfig) (log : List EventRow) (q : EventQuery) (session : ReadSession) :
    List EventRow :=
  match db.routeRead (.forQuery q db.replicaReadMaxAge.isSome) session with
  | .replica _ _ => if session.replicaFails then log else log.take session.replayed
  | .writer => log

def queryEventsRouted (db : RouteConfig) (log : List EventRow) (q : EventQuery)
    (session : ReadSession) : Option (List StoredEvent) :=
  queryEventsOn (db.rowsRead log q session) q

end RouteConfig

/-- Without a read budget every query is answered from the writer. -/
theorem RouteConfig.rowsRead_of_noBudget {db : RouteConfig} (h : db.replicaReadMaxAge = none)
    (log : List EventRow)
    (q : EventQuery) (session : ReadSession) : db.rowsRead log q session = log := by
  have hfresh : ∀ entry now, db.verdict .bounded entry now = none := by
    intro entry now
    unfold RouteConfig.verdict RouteConfig.boundedHolds
    rw [h]
    rfl
  have hroute : db.routeRead (.forQuery q db.replicaReadMaxAge.isSome) session = .writer := by
    unfold RouteConfig.routeRead RoutePredicate.forQuery
    rw [h]
    simp only [Option.isSome_none, Bool.not_false, if_true, hfresh]
    split
    · rfl
    · split <;> rfl
  unfold RouteConfig.rowsRead
  rw [hroute]

/-! ## The rows of an answer -/

/-- The database runs the query, and the row is one of those it asks for. -/
def EventQuery.selects (q : EventQuery) (row : EventRow) : Bool :=
  !q.matchesNothing && (q.isBindable && decide (0 ≤ q.pageLimit)) && whereClause q row &&
    sharedGatedClause q row

variable {rows : List EventRow} {q : EventQuery} {events : List StoredEvent} {row : EventRow}

/-- An answer that stays within the limit has every selected row. -/
theorem mem_queryEventsOn (hrow : row ∈ rows) (hsel : q.selects row = true)
    (hlimit : rows.countP q.selects ≤ q.pageLimit.toNat) (h : queryEventsOn rows q = some events) :
    row.stored ∈ events := by
  simp only [EventQuery.selects, Bool.and_eq_true, Bool.not_eq_true'] at hsel
  obtain ⟨⟨⟨hnothing, hruns⟩, hwhere⟩, hshared⟩ := hsel
  have hselects : ∀ r ∈ rows, q.selects r = (whereClause q r && sharedGatedClause q r) := by
    intro r _
    simp [EventQuery.selects, hnothing, hruns]
  unfold queryEventsOn at h
  rw [if_neg (by simp [hnothing]), if_pos (by simpa using hruns)] at h
  rw [List.countP_congr (fun r hr => by rw [hselects r hr]), List.countP_eq_length_filter] at hlimit
  have htake := List.take_of_length_le hlimit
  rw [← Option.some.inj h, htake]
  exact List.mem_map_of_mem (List.mem_filter.mpr ⟨hrow, by simp [hwhere, hshared]⟩)

end Pkzz.Relay
