import Pkzz.Lib.Redis
import Pkzz.Workflow.Schedule

/-!
# The session directory

`buzz-relay`'s `tunnel/directory.rs`. A session of a community has a lease key, which expires, and a
generation counter, which does not. The four Lua scripts are functions on the store, because a
script runs alone; the functions around them write the arguments and read the replies.

The clock of the server is an argument, in milliseconds. Failures of the connection and metrics are
left out.
-/

namespace Pkzz.Tunnel

open Pkzz.Core Pkzz.Lib
open Pkzz.Workflow (parseU64)

/-! ## Data -/

/-- `RuntimeId`: an iroh endpoint id. -/
abbrev RuntimeId := FixedBytes 32

inductive Profile where
  | reliableStream
  | realtimeMedia
  | huddleControl
  deriving DecidableEq

/-- The fenced tuple on every session-bearing frame. -/
structure FencedHeader where
  sessionId : Uuid
  generation : Nat
  ownerRuntimeId : RuntimeId
  deriving DecidableEq

structure SessionLease where
  communityId : CommunityId
  sessionId : Uuid
  ownerRuntimeId : RuntimeId
  generation : Nat
  profile : Profile
  deriving DecidableEq

/-- `fenced_header`. -/
def SessionLease.fencedHeader (lease : SessionLease) : FencedHeader :=
  ⟨lease.sessionId, lease.generation, lease.ownerRuntimeId⟩

inductive AcquireResult where
  | acquired (lease : SessionLease)
  | exists (lease : SessionLease)
  deriving DecidableEq

inductive RenewResult where
  | renewed (lease : SessionLease)
  | lost (current : Option SessionLease) (knownGeneration : Option Nat)
  deriving DecidableEq

inductive ReleaseResult where
  | released (lease : SessionLease)
  | notOwner (current : Option SessionLease) (knownGeneration : Option Nat)
  deriving DecidableEq

inductive DirectoryError where
  | redis (text : String)
  | malformedLease (communityId : CommunityId) (sessionId : Uuid) (value : String)
  | malformedGeneration (communityId : CommunityId) (sessionId : Uuid) (value : String)
  | unexpectedScriptStatus (status : String)
  | invalidLeaseTtl
  deriving DecidableEq

/-- The rejections of a fenced frame. `transport` has the text of the error as the error itself. -/
inductive MeshError where
  | staleGeneration (sessionId : Uuid) (frameGeneration knownGeneration : Nat)
  | noActiveLease (sessionId : Uuid) (frameGeneration knownGeneration : Nat)
      (frameOwnerRuntimeId : RuntimeId)
  | futureGeneration (sessionId : Uuid) (frameGeneration knownGeneration : Nat)
  | ownerMismatch (sessionId : Uuid) (generation : Nat)
      (frameOwnerRuntimeId currentOwnerRuntimeId : RuntimeId)
  | transport (error : DirectoryError)
  deriving DecidableEq

/-! ## Keys and values -/

/-- `SessionKeys::new`. -/
def sessionBase (communityId : CommunityId) (sessionId : Uuid) : String :=
  "buzz:" ++ communityId.uuid.toString ++ ":tunnel:" ++ sessionId.toString

def leaseKey (communityId : CommunityId) (sessionId : Uuid) : String :=
  sessionBase communityId sessionId ++ ":lease"

def generationKey (communityId : CommunityId) (sessionId : Uuid) : String :=
  sessionBase communityId sessionId ++ ":generation"

/-- `as_wire_str`. -/
def Profile.asWireStr : Profile → String
  | reliableStream => "reliable-stream"
  | realtimeMedia => "realtime-media"
  | huddleControl => "huddle-control"

def profileFromWire (value : String) : Option Profile :=
  if value = "reliable-stream" then some .reliableStream
  else if value = "realtime-media" then some .realtimeMedia
  else if value = "huddle-control" then some .huddleControl
  else none

/-- `hex::decode` into 32 octets. -/
def runtimeFromHex (s : String) : Option RuntimeId :=
  match decodeHex s.toList with
  | some bytes => if h : bytes.length = 32 then some ⟨bytes, h⟩ else none
  | none => none

/-- `parse_lease`; every failure is the same error. -/
def parseLease (communityId : CommunityId) (sessionId : Uuid) (value : String) :
    Except DirectoryError SessionLease :=
  let malformed : Except DirectoryError SessionLease :=
    .error (.malformedLease communityId sessionId value)
  match Str.split value '|' with
  | ownerHex :: generation :: rest =>
    match parseU64 generation with
    | none => malformed
    | some generation =>
      if generation = 0 then malformed
      else
        match rest with
        | [] => malformed
        | profile :: more =>
          match profileFromWire profile with
          | none => malformed
          | some profile =>
            if !more.isEmpty then malformed
            else
              match runtimeFromHex ownerHex with
              | none => malformed
              | some ownerRuntimeId =>
                  .ok { communityId, sessionId, ownerRuntimeId, generation, profile }
  | _ => malformed

/-- `parse_optional_lease`. -/
def parseOptionalLease (communityId : CommunityId) (sessionId : Uuid) (value : String) :
    Except DirectoryError (Option SessionLease) :=
  if value = "" then .ok none else (parseLease communityId sessionId value).map some

/-- `parse_optional_generation`. -/
def parseOptionalGeneration (communityId : CommunityId) (sessionId : Uuid) (value : String) :
    Except DirectoryError (Option Nat) :=
  if value = "" then .ok none
  else
    match parseU64 value with
    | none => .error (.malformedGeneration communityId sessionId value)
    | some generation =>
      if generation = 0 then
        .error (.malformedGeneration communityId sessionId value) else .ok (some generation)

/-! ## The scripts -/

/-- `string.match(current, '^([^|]+)|([^|]+)|([^|]+)$')`. -/
def matchLease (current : String) : Option (String × String × String) :=
  match Str.split current '|' with
  | [owner, generation, profile] => if owner = "" ∨ generation = "" ∨ profile = "" then
      none else some (owner, generation, profile)
  | _ => none

/-- The lease is of this owner and generation, as the scripts compare them. -/
def heldBy (owner generation current : String) : Bool :=
  match matchLease current with
  | some (currentOwner, currentGeneration, _) =>
      currentOwner == owner && currentGeneration == generation
  | none => false

/-- `redis.call('GET', generation_key) or current_generation or ''`. -/
def knownOr (r : Redis) (generationKey current : String) : String :=
  match r.get generationKey, matchLease current with
  | some known, _ => known
  | none, some (_, currentGeneration, _) => currentGeneration
  | none, none => ""

/-- `ACQUIRE_SCRIPT`; an error of `INCR` ends it. -/
def acquireScript (r : Redis) (leaseKey generationKey owner profile : String) (deadline : Int) :
    Except DirectoryError (Redis × String × String × String) :=
  match r.get leaseKey with
  | some current => .ok (r, "exists", current, (r.get generationKey).getD "")
  | none =>
    match r.incr generationKey with
    | .error e => .error (.redis e)
    | .ok (r, generation) =>
      let value := owner ++ "|" ++ Redis.tostring generation ++ "|" ++ profile
      .ok (r.setPx leaseKey value deadline, "acquired", value, Redis.tostring generation)

/-- `RENEW_SCRIPT`. -/
def renewScript (r : Redis) (leaseKey generationKey owner generation : String) (deadline : Int) :
    Redis × String × String × String :=
  match r.get leaseKey with
  | none => (r, "missing", "", (r.get generationKey).getD "")
  | some current =>
    if heldBy owner generation current then
      (r.pexpire leaseKey deadline, "renewed", current, knownOr r generationKey current)
    else (r, "lost", current, knownOr r generationKey current)

/-- `RELEASE_SCRIPT`. -/
def releaseScript (r : Redis) (leaseKey generationKey owner generation : String) :
    Redis × String × String × String :=
  match r.get leaseKey with
  | none => (r, "missing", "", (r.get generationKey).getD "")
  | some current =>
    if heldBy owner generation current then
      (r.del leaseKey, "released", current, knownOr r generationKey current)
    else (r, "lost", current, knownOr r generationKey current)

/-- `VALIDATE_SCRIPT`. -/
def validateScript (r : Redis) (leaseKey generationKey : String) : String × String :=
  ((r.get leaseKey).getD "", (r.get generationKey).getD "")

/-! ## `SessionDirectory` -/

/-- The lifetime of a lease, in milliseconds. -/
structure SessionDirectory where
  leaseTtl : Nat

/-- `ttl_ms`. -/
def ttlMs (ttl : Nat) : Except DirectoryError Int := if 0 < ttl ∧ ttl < 2 ^ 63 then
    .ok ttl else .error .invalidLeaseTtl

namespace SessionDirectory

/-- `acquire`. -/
def acquire (d : SessionDirectory) (r : Redis) (now : Int) (communityId : CommunityId)
    (sessionId : Uuid)
    (ownerRuntimeId : RuntimeId) (profile : Profile) :
    Redis × Except DirectoryError AcquireResult :=
  match ttlMs d.leaseTtl with
  | .error e => (r, .error e)
  | .ok ttl =>
    match acquireScript r (leaseKey communityId sessionId) (generationKey communityId sessionId)
      ownerRuntimeId.toHex
        profile.asWireStr (now + ttl) with
    | .error e => (r, .error e)
    | .ok (r', status, value, _) =>
      (r', match parseLease communityId sessionId value with
        | .error e => .error e
        | .ok lease =>
          if status = "acquired" then .ok (.acquired lease)
          else if status = "exists" then .ok (.exists lease)
          else .error (.unexpectedScriptStatus status))

/-- `takeover`. -/
def takeover (d : SessionDirectory) := d.acquire

/-- The reply of a script that asks for a holder: the lease, and the counter when it was not held. A
reply of success always has a lease in it, so the `expect` on it is not reached. -/
def holderReply {α : Type} (lease : SessionLease) (held : String) (success : SessionLease → α)
    (failure : Option SessionLease → Option Nat → α) (reply : String × String × String) :
    Except DirectoryError α :=
  match parseOptionalLease lease.communityId lease.sessionId reply.2.1 with
  | .error e => .error e
  | .ok current =>
    if reply.1 = held then
      match current with
      | some current => .ok (success current)
      | none => .error (.unexpectedScriptStatus reply.1)
    else if reply.1 = "missing" ∨ reply.1 = "lost" then
      (parseOptionalGeneration lease.communityId lease.sessionId reply.2.2).map (failure current)
    else .error (.unexpectedScriptStatus reply.1)

/-- `renew`. -/
def renew (d : SessionDirectory) (r : Redis) (now : Int) (lease : SessionLease) :
    Redis × Except DirectoryError RenewResult :=
  match ttlMs d.leaseTtl with
  | .error e => (r, .error e)
  | .ok ttl =>
    let (r', reply) := renewScript r (leaseKey lease.communityId lease.sessionId)
        (generationKey lease.communityId lease.sessionId)
      lease.ownerRuntimeId.toHex lease.generation.repr (now + ttl)
    (r', holderReply lease "renewed" .renewed .lost reply)

/-- `release`. -/
def release (r : Redis) (lease : SessionLease) : Redis × Except DirectoryError ReleaseResult :=
  let (r', reply) := releaseScript r (leaseKey lease.communityId lease.sessionId)
      (generationKey lease.communityId lease.sessionId)
    lease.ownerRuntimeId.toHex lease.generation.repr
  (r', holderReply lease "released" .released .notOwner reply)

/-- `lookup`. -/
def lookup (r : Redis) (communityId : CommunityId) (sessionId : Uuid) :
    Except DirectoryError (Option SessionLease) :=
  match r.get (leaseKey communityId sessionId) with
  | some value => (parseLease communityId sessionId value).map some
  | none => .ok none

/-- `validate_fenced_header`. -/
def validateFencedHeader (r : Redis) (communityId : CommunityId) (fenced : FencedHeader) :
    Except MeshError Unit :=
  let (leaseValue, knownGeneration) :=
    validateScript r (leaseKey communityId fenced.sessionId)
      (generationKey communityId fenced.sessionId)
  match parseOptionalGeneration communityId fenced.sessionId knownGeneration with
  | .error e => .error (.transport e)
  | .ok counter =>
    let knownFromCounter := counter.getD 0
    match parseOptionalLease communityId fenced.sessionId leaseValue with
    | .error e => .error (.transport e)
    | .ok current =>
      let known := max ((current.map SessionLease.generation).getD knownFromCounter)
          knownFromCounter
      if known > 0 ∧ fenced.generation < known then
        .error (.staleGeneration fenced.sessionId fenced.generation known)
      else
        match current with
        | none => .error (.noActiveLease fenced.sessionId fenced.generation known
            fenced.ownerRuntimeId)
        | some current =>
          if fenced.generation ≠ current.generation then
            .error (.futureGeneration fenced.sessionId fenced.generation current.generation)
          else if fenced.ownerRuntimeId ≠ current.ownerRuntimeId then
            .error (.ownerMismatch fenced.sessionId fenced.generation fenced.ownerRuntimeId
              current.ownerRuntimeId)
          else .ok ()

end SessionDirectory

end Pkzz.Tunnel
