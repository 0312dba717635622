import Pkzz.Acp.Queue
import Pkzz.Lib.Machine

/-!
# Participation and its guard

`buzz-acp`'s `participation.rs`, with the part of the main loop that calls it. An agent answers a
reply without being mentioned when the reply refers to something that it is part of. How often it
does so is counted under the id that the reply was recognised by.
-/

namespace Pkzz.Acp

open Pkzz.Core Pkzz.Lib

/-- Maximum tracked self-authored event ids before generation rotation. -/
def OWN_EVENT_LIMIT : Nat := 4096

/-- Maximum tracked participated thread roots before generation rotation. -/
def THREAD_LIMIT : Nat := 1024

/-- Bound on tracked chains. -/
def CHAIN_MAP_LIMIT : Nat := 2048

def EPHEMERAL_KIND_START : Kind := 20000
def EPHEMERAL_KIND_END : Kind := 29999
def KIND_DELETION : Kind := 5
def KIND_REACTION : Kind := 7

/-! ## Bounded sets -/

/-- Two-generation bounded set of strings. -/
structure TwoGenSet where
  current : Finset String
  previous : Finset String
  halfLimit : Nat

namespace TwoGenSet

def new (limit : Nat) : TwoGenSet := ⟨∅, ∅, max (limit / 2) 1⟩

def contains (s : TwoGenSet) (value : String) : Bool :=
  decide (value ∈ s.current) || decide (value ∈ s.previous)

def insert (s : TwoGenSet) (value : String) : TwoGenSet :=
  if s.contains value then s
  else if s.current.card ≥ s.halfLimit then { s with current := {value}, previous := s.current }
  else { s with current := Insert.insert value s.current }

end TwoGenSet

/-! ## The tracker -/

/-- All event ids referenced by `e` tags, first-position value. -/
def referencedEventIds (event : Event) : List String :=
  event.tags.filterMap fun tag => if tag.kind = "e" then tag.content else none

structure ParticipationTracker where
  /-- Event ids authored by the agent, channel-agnostic. -/
  ownEvents : TwoGenSet
  /-- `"<channel_uuid>:<root_id_hex>"` keys for threads the agent posted in. -/
  threads : TwoGenSet

namespace ParticipationTracker

def new : ParticipationTracker := ⟨TwoGenSet.new OWN_EVENT_LIMIT, TwoGenSet.new THREAD_LIMIT⟩

def threadKey (channelId : Uuid) (rootHex : String) : String :=
  Uuid.toString channelId ++ ":" ++ rootHex

def recordSelfEvent (tracker : ParticipationTracker) (channelId : Uuid) (event : Event) :
    ParticipationTracker :=
  if event.kind = KIND_DELETION ∨ event.kind = KIND_REACTION ∨
      (EPHEMERAL_KIND_START ≤ event.kind ∧ event.kind ≤ EPHEMERAL_KIND_END) then tracker
  else
    { ownEvents := tracker.ownEvents.insert event.id.toHex
      threads := (referencedEventIds event).foldl (fun threads id =>
        threads.insert (threadKey channelId id)) tracker.threads }

/-- The first referenced id that the agent is part of. -/
def threadEngagementRoot (tracker : ParticipationTracker) (channelId : Uuid) (event : Event) :
    Option String :=
  (referencedEventIds event).find? fun id =>
    tracker.ownEvents.contains id || tracker.threads.contains (threadKey channelId id)

end ParticipationTracker

/-! ## The guard -/

inductive SuppressReason
  | chainCap
  | cooldown
  deriving DecidableEq

structure EngagementGuard where
  maxAgentChain : Nat
  cooldown : Duration
  /-- `"<channel>:<root>"` → consecutive thread-engaged turn count. -/
  chains : Map String Nat
  /-- Per-channel instant of the last allowed thread-engaged turn. -/
  lastEngaged : Map Uuid Instant

namespace EngagementGuard

def new (maxAgentChain : Nat) (cooldown : Duration) : EngagementGuard :=
  ⟨maxAgentChain, cooldown, ∅, ∅⟩

def chainKey (channelId : Uuid) (rootHex : String) : String :=
  Uuid.toString channelId ++ ":" ++ rootHex

def resetChain (guard : EngagementGuard) (channelId : Uuid) (rootHex : String) : EngagementGuard :=
  { guard with chains := Finmap.erase (chainKey channelId rootHex) guard.chains }

/-- The cooldown of the channel has not passed. An instant before the last one is no time after it.
-/
def cooling (guard : EngagementGuard) (channelId : Uuid) (now : Instant) : Bool :=
  (Finmap.lookup channelId guard.lastEngaged).any fun last => now - last < guard.cooldown

def admitThreadTurn (guard : EngagementGuard) (channelId : Uuid) (rootHex : String)
    (now : Instant) : Except SuppressReason (EngagementGuard × Nat) :=
  let key := chainKey channelId rootHex
  let chain := (Finmap.lookup key guard.chains).getD 0
  if chain ≥ guard.maxAgentChain then .error .chainCap
  else if guard.cooling channelId now then .error .cooldown
  else
    -- safe, says the source: the worst case is a fresh chain budget
    let chains := if guard.chains.keys.card ≥ CHAIN_MAP_LIMIT ∧ key ∉ guard.chains then
        ∅ else guard.chains
    .ok ({ guard with
      chains := Finmap.insert key (chain + 1) chains,
      lastEngaged := Finmap.insert channelId now guard.lastEngaged }, chain + 1)

end EngagementGuard

/-! ## Threads -/

/-- The id of the last `e` tag with the marker. -/
def markedId (marker : String) (event : Event) : Option String :=
  ((event.tags.filter fun tag =>
    tag.kind = "e" ∧ tag.buf[3]? = some marker).getLast?).bind Tag.content

/-- The root of the thread by NIP-10, as `parse_thread_tags` reads the markers: the root, or what a
direct reply replies to. Where nothing is marked it is the first reference. -/
def nip10Root (event : Event) : Option String :=
  ((markedId "root" event).or (markedId "reply" event)).or (referencedEventIds event).head?

/-- A thread of a channel. -/
abbrev Thread := Uuid × String

def threadOf (channelId : Uuid) (event : Event) : Option Thread := (nip10Root event).map fun root =>
    (channelId, root)

/-! ## The main loop -/

/-- What happened, as far as the guard is concerned. -/
inductive Engagement
  /-- A turn was admitted, and counted under the key. -/
  | admitted (channelId : Uuid) (thread : Option Thread) (key : String) (now : Instant)
  /-- The chain was reset. -/
  | reset (thread : Option Thread)

structure EngagementLoop where
  participation : ParticipationTracker
  guard : EngagementGuard
  /-- Newest first. Nothing reads it. -/
  log : List Engagement

def EngagementLoop.init (maxAgentChain : Nat) (cooldown : Duration) : EngagementLoop :=
  ⟨ParticipationTracker.new, EngagementGuard.new maxAgentChain cooldown, []⟩

inductive Inbound
  /-- An event of the agent's own. -/
  | own (channelId : Uuid) (event : Event)
  /-- A mention, or the owner speaking. -/
  | human (channelId : Uuid) (event : Event)
  /-- A reply that is matched by its thread alone. -/
  | reply (channelId : Uuid) (event : Event) (now : Instant)

/-- The main loop, where it decides on engagement. -/
def engagementLoop : Machine EngagementLoop Inbound where
  step s
    | .own channelId event =>
        some { s with participation := s.participation.recordSelfEvent channelId event }
    | .human channelId event =>
      match s.participation.threadEngagementRoot channelId event with
      | none => some s
      | some rootHex => some
          { s with
            guard := s.guard.resetChain channelId rootHex,
            log := .reset (threadOf channelId event) :: s.log }
    | .reply channelId event now =>
      match s.participation.threadEngagementRoot channelId event with
      | none => some s
      | some rootHex =>
        match s.guard.admitThreadTurn channelId rootHex now with
        | .error _ => some s
        | .ok (guard, _) =>
          some { s with guard := guard,
                        log := .admitted channelId (threadOf channelId event)
                          (EngagementGuard.chainKey channelId rootHex) now :: s.log }

end Pkzz.Acp
