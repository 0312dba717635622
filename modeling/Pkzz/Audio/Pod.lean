import Pkzz.Audio.Manager
import Pkzz.Audio.Owners

/-!
# A pod with its huddles

The audio connections of a pod (`handle_active_audio_connection` of `audio/handler.rs`, from the
membership check on), the control streams other pods open to it (`serve_control_loop` of
`audio/join.rs`) and its renewers, over the rooms of the pod, the owner registry and Redis. A step
of the machine is what one of them does up to its next await, or up to its next access to a map that
others use.

The retries of `resolve_join_owner_ready` are not counted: a connection may give up at any of them.
What a stream is told by the owner's tokens, and the frames it carries back, are left out; it may
close at any time.
-/

namespace Pkzz.Audio

open Pkzz.Core Pkzz.Lib Pkzz.Tunnel

/-- What the parts of a pod share. -/
structure Relay where
  sessions : Sessions
  rooms : AudioRoomManager
  owners : HuddleOwnerRegistry

/-- `mesh` is whether `state.mesh()` is there. -/
structure Config where
  localRuntimeId : RuntimeId
  directory : SessionDirectory
  mesh : Bool

/-! ## Connections -/

/-- `JoinOutcome`. -/
inductive JoinOutcome where
  | localOwner (generation : Nat)
  | remoteOwner (ownerRuntimeId : RuntimeId) (generation : Nat)
  deriving DecidableEq

/-- `CURRENT_PROTOCOL_VERSION`. -/
def currentProtocolVersion : Nat := 2

/-- The returns between `get_or_create` and the admission. -/
inductive PreJoinFailure where
  | channelArchived
  | channelCheckFailed
  | unsupportedVersion
  | ownerRejected
  | ownerUnreachable
  deriving DecidableEq

/-- Whether `cleanup_if_empty` comes before the return. -/
def PreJoinFailure.cleansUp : PreJoinFailure → Bool
  | unsupportedVersion => false
  | _ => true

/-- Where a connection is. -/
inductive JoinStage where
  /-- Before `owner_of`. -/
  | resolving
  /-- Before `acquire`. -/
  | unowned
  /-- This pod has the lease; before `lost_for`. -/
  | reusing (generation : Nat)
  /-- Before `validate`. -/
  | validating (ownerRuntimeId : RuntimeId) (generation : Nat)
  | resolved (pendingRemote : Option JoinOutcome) (acquiredLease : Option SessionLease)
  /-- The room is there, and the checks before the admission are under way. -/
  | obtained (room : Nat) (pendingRemote : Option JoinOutcome) (acquiredLease : Option SessionLease)
  /-- In the room, before `attach_signals` or `lost_for`. -/
  | admitted (room : Nat) (peerId : Uuid) (pendingRemote : Option JoinOutcome)
      (acquiredLease : Option SessionLease)
  /-- `attach_signals` has found no entry. -/
  | installing (room : Nat) (peerId : Uuid) (generation : Nat) (lease : SessionLease)
  /-- Before `drain_for`. -/
  | watching (room : Nat) (peerId : Uuid) (generation : Nat) (lost : Option Nat)
  | serving (room : Nat) (peerId : Uuid) (remote : Bool) (ownerGeneration : Option Nat)
      (signals : HuddleOwnerSignals)
  /-- The room has ended; before the answer of `archive_channel`. -/
  | archiving (room : Nat) (ownerGeneration : Option Nat)
  /-- Before the last `cleanup_if_empty`. -/
  | leaving (ownerGeneration : Option Nat)
  /-- `room_emptied`; before `release`. -/
  | emptied (ownerGeneration : Nat)
  deriving DecidableEq

structure Connection where
  communityId : CommunityId
  channelId : Uuid
  pubkey : String
  protocolVersion : Nat
  stage : JoinStage
  deriving DecidableEq

def Connection.key (conn : Connection) : HuddleKey := (conn.communityId, conn.channelId)

inductive ConnectionEvent where
  /-- The next call of `resolve_join_owner_ready`. -/
  | resolve (now : Int)
  /-- The join is rejected before there is a room: the directory fails, or the retries are used up.
  -/
  | giveUp
  | getOrCreate
  | refuse (failure : PreJoinFailure)
  /-- `add_peer`, or `add_peer_at_index` with the index the owner gave. -/
  | addPeer (peerId : Uuid) (ownerIndex : Nat)
  /-- The next call on the registry. -/
  | attach
  /-- The next call of the cleanup, with the answer of `archive_channel`. -/
  | leave (archived : Bool)

/-- `JoinOutcome::RemoteOwner`. -/
def isRemote : Option JoinOutcome → Bool
  | some (.remoteOwner _ _) => true
  | _ => false

/-- What a live lease means for a join. -/
def Config.found (cfg : Config) (lease : SessionLease) : JoinStage :=
  if lease.ownerRuntimeId = cfg.localRuntimeId then .reusing lease.generation
  else .validating lease.ownerRuntimeId lease.generation

variable (cfg : Config)

/-- `resolve_join_owner_ready`, one call at a time. A connection without a next stage is closed. -/
def Connection.resolve (r : Relay) (conn : Connection) (now : Int) :
    Option (Relay × Option JoinStage) :=
  match conn.stage with
  | .resolving =>
    match SessionDirectory.lookup r.sessions.redis conn.communityId conn.channelId with
    | .ok (some lease) => some (r, some (cfg.found lease))
    | .ok none => some (r, some .unowned)
    | .error _ => some (r, none)
  | .unowned =>
    let result := cfg.directory.acquire r.sessions.redis now conn.communityId conn.channelId
        cfg.localRuntimeId .huddleControl
    let r' : Relay := { r with sessions := ⟨result.1, r.sessions.acquired ++ handedOut result.2⟩ }
    match result.2 with
    | .ok (.acquired lease) =>
        some (r', some (.resolved (some (.localOwner lease.generation)) (some lease)))
    | .ok (.exists lease) => some (r', some (cfg.found lease))
    | .error _ => some (r', none)
  | .reusing generation =>
    if (r.owners.signalFor conn.channelId).isSome then
      some (r, some (.resolved (some (.localOwner generation)) none))
    else some (r, some .resolving)
  | .validating ownerRuntimeId generation =>
    match SessionDirectory.validateFencedHeader r.sessions.redis conn.communityId ⟨conn.channelId,
        generation, ownerRuntimeId⟩ with
    | .ok () => some (r, some (.resolved (some (.remoteOwner ownerRuntimeId generation)) none))
    | .error _ => some (r, none)
  | _ => none

/-- The admission at the room's handle, if it succeeds. -/
def Connection.admission (r : Relay) (conn : Connection) (room : Nat)
    (pendingRemote : Option JoinOutcome) (peerId : Uuid)
    (ownerIndex : Nat) : Option AudioRoomManager :=
  if isRemote pendingRemote then
    r.rooms.addPeerAtIndex room peerId conn.pubkey conn.protocolVersion ownerIndex
  else r.rooms.addPeer room peerId conn.pubkey conn.protocolVersion

/-- From `get_or_create` to the admission. An admission error returns without a cleanup. -/
def Connection.join (r : Relay) (conn : Connection) : ConnectionEvent →
    Option (Relay × Option JoinStage)
  | .getOrCreate =>
    match conn.stage with
    | .resolved pendingRemote acquiredLease =>
      let obtained := r.rooms.getOrCreate conn.key
      some ({ r with rooms := obtained.1 }, some (.obtained obtained.2 pendingRemote acquiredLease))
    | _ => none
  | .refuse failure =>
    match conn.stage with
    | .obtained _ pendingRemote _ =>
      let supported := 0 < conn.protocolVersion ∧ conn.protocolVersion ≤ currentProtocolVersion
      match failure with
      | .unsupportedVersion => if supported then none else some (r, none)
      | .channelArchived | .channelCheckFailed =>
          some ({ r with rooms := (r.rooms.cleanupIfEmpty conn.key).1 }, none)
      | .ownerRejected | .ownerUnreachable =>
        if supported ∧ isRemote pendingRemote then
          some ({ r with rooms := (r.rooms.cleanupIfEmpty conn.key).1 }, none)
        else none
    | _ => none
  | .addPeer peerId ownerIndex =>
    match conn.stage with
    | .obtained room pendingRemote acquiredLease =>
      if 0 < conn.protocolVersion ∧ conn.protocolVersion ≤ currentProtocolVersion ∧
        r.rooms.fresh peerId then
        match conn.admission r room pendingRemote peerId ownerIndex with
        | some rooms => some ({ r with rooms },
            some (.admitted room peerId pendingRemote acquiredLease))
        | none => some (r, none)
      else none
    | _ => none
  | _ => none

/-- From the admission on: the signals of the owner. -/
def Connection.attach (r : Relay) (conn : Connection) : Option (Relay × Option JoinStage) :=
  match conn.stage with
  | .admitted room peerId (some (.localOwner generation)) (some lease) =>
    match r.owners.attachSignals conn.channelId lease with
    | some attached => some ({ r with owners := attached.1 },
        some (.serving room peerId false (some generation) attached.2))
    | none => some (r, some (.installing room peerId generation lease))
  | .admitted room peerId (some (.localOwner generation)) none =>
    some (r, some (.watching room peerId generation (r.owners.signalFor conn.channelId)))
  | .admitted room peerId pendingRemote _ =>
      some (r, some (.serving room peerId (isRemote pendingRemote) none ⟨none, none⟩))
  | .installing room peerId generation lease =>
    let installed := r.owners.install conn.channelId lease
    some ({ r with owners := installed.1 },
      some (.serving room peerId false (some generation) installed.2))
  | .watching room peerId generation lost =>
    some (r, some (.serving room peerId false (some generation) ⟨lost,
      r.owners.signalFor conn.channelId⟩))
  | _ => none

/-- The removal, with or without the check whether the room has ended. -/
def Connection.removal (r : Relay) (room : Nat) (peerId : Uuid) (remote : Bool) :
    AudioRoomManager × Bool :=
  if remote then (r.rooms.update room fun room => room.removePeer peerId, false)
  else
    (r.rooms.update room fun room => (room.removePeerAndCheckEnded peerId).1,
      (r.rooms.created[room]?).any fun room => (room.removePeerAndCheckEnded peerId).2)

/-- The cleanup of a connection. -/
def Connection.leave (r : Relay) (conn : Connection) (archived : Bool) :
    Option (Relay × Option JoinStage) :=
  match conn.stage with
  | .serving room peerId remote ownerGeneration _ =>
    let removed := removal r room peerId remote
    some ({ r with rooms := removed.1 },
      some (if removed.2 then .archiving room ownerGeneration else .leaving ownerGeneration))
  | .archiving room ownerGeneration =>
    if archived then some (r, some (.leaving ownerGeneration))
    else some ({ r with rooms := r.rooms.update room Room.clearEnded }, none)
  | .leaving ownerGeneration =>
    let cleaned := r.rooms.cleanupIfEmpty conn.key
    some ({ r with rooms := cleaned.1 },
      match ownerGeneration with
      | some generation => if cleaned.2 then some (.emptied generation) else none
      | none => none)
  | .emptied generation =>
      some ({ r with owners := r.owners.release conn.channelId generation }, none)
  | _ => none

/-- A step of a connection. -/
def Connection.step (r : Relay) (conn : Connection) : ConnectionEvent →
    Option (Relay × Option JoinStage)
  | .resolve now => conn.resolve cfg r now
  | .giveUp =>
    match conn.stage with
    | .resolving | .unowned | .reusing _ | .validating _ _ => some (r, none)
    | _ => none
  | .attach => conn.attach r
  | .leave archived => conn.leave r archived
  | event => conn.join r event

/-! ## Control streams -/

/-- A `HuddleControl` stream to this pod. `pending` is a registration that waits for the fence. -/
structure ControlStream where
  fenced : FencedHeader
  streamCommunity : Option CommunityId
  registered : List (String × Uuid)
  pending : Option (Nat × String × Nat)

def ControlStream.key (st : ControlStream) : Option HuddleKey :=
  st.streamCommunity.map fun communityId => (communityId, st.fenced.sessionId)

inductive StreamEvent where
  /-- `RegisterPeer`, up to the fence. -/
  | register (communityId : CommunityId) (pubkey : String) (protocolVersion : Nat)
  /-- `validate` has answered. -/
  | fence (peerId : Uuid)
  | unregister (pubkey : String)
  | close

/-- The room the map has for the stream now. -/
def ControlStream.currentRoom (r : Relay) (st : ControlStream) : Option Nat :=
  st.key.bind r.rooms.get

/-- The teardown: every peer the stream still has registered leaves the room that is in the map. -/
def ControlStream.teardown (r : Relay) (st : ControlStream) : Relay :=
  match st.currentRoom r with
  | some room => { r with
      rooms := r.rooms.update room fun room => room.removePeers (st.registered.map Prod.snd) }
  | none => r

/-- `registered.insert`. -/
def ControlStream.insert (st : ControlStream) (pubkey : String) (peerId : Uuid) : ControlStream :=
  { st with
    registered := st.registered.filter (fun p => p.1 ≠ pubkey) ++ [(pubkey, peerId)],
    pending := none }

/-- A step of a stream. A stream without a next state is closed. -/
def ControlStream.step (r : Relay) (st : ControlStream) : StreamEvent →
    Option (Relay × Option ControlStream)
  | .register communityId pubkey protocolVersion =>
    if st.pending.isSome then none
    else if st.streamCommunity.any fun latched => latched ≠ communityId then
      some (st.teardown r, none)
    else
      let st : ControlStream := { st with streamCommunity := some communityId }
      if r.owners.draining then some (st.teardown r, none)
      else
        let obtained := r.rooms.getOrCreate (communityId, st.fenced.sessionId)
        some ({ r with rooms := obtained.1 },
          some { st with pending := some (obtained.2, pubkey, protocolVersion) })
  | .fence peerId =>
    match st.pending, st.streamCommunity with
    | some (room, pubkey, protocolVersion), some communityId =>
      if r.rooms.fresh peerId then
        match SessionDirectory.validateFencedHeader r.sessions.redis communityId st.fenced with
        | .ok () =>
          match r.rooms.addPeer room peerId pubkey protocolVersion with
          | some rooms => some ({ r with rooms }, some (st.insert pubkey peerId))
          | none => some (r, some { st with pending := none })
        | .error (.transport _) => some (st.teardown r, none)
        | .error _ => some (r, some { st with pending := none })
      else none
    | _, _ => none
  | .unregister pubkey =>
    if st.pending.isSome then none
    else
      match st.registered.find? fun p => p.1 = pubkey with
      | some (_, peerId) =>
        let st' : ControlStream :=
          { st with registered := st.registered.filter fun p => p.1 ≠ pubkey }
        match st.currentRoom r with
        | some room => some ({ r with
            rooms := r.rooms.update room fun room => room.removePeer peerId }, some st')
        | none => some (r, some st')
      | none => some (r, some st)
  | .close => some (st.teardown r, none)

/-! ## The machine -/

structure Pod where
  relay : Relay
  connections : Map Nat Connection
  streams : Map Nat ControlStream

inductive Event where
  /-- A client has come as far as the membership check. -/
  | connect (c : Nat) (communityId : CommunityId) (channelId : Uuid) (pubkey : String)
      (protocolVersion : Nat)
  | connection (c : Nat) (event : ConnectionEvent)
  /-- A stream for which this pod is the named owner. -/
  | accept (st : Nat) (fenced : FencedHeader)
  | stream (st : Nat) (event : StreamEvent)
  | renewer (i : Nat) (event : RenewerEvent)
  | drain (sessionId : Uuid) (generation : Nat)
  | startDrain
  /-- Another pod's call on the directory, or the end of a lease's time. -/
  | world (call : Call)

/-- The next state of what has a number, or its end. -/
def put {V : Type} (m : Map Nat V) (n : Nat) : Option V → Map Nat V
  | some v => Finmap.insert n v m
  | none => Finmap.erase n m

def pod : Machine Pod Event where
  step s
    | .connect c communityId channelId pubkey protocolVersion =>
      if c ∈ s.connections ∨ (cfg.mesh = true ∧ s.relay.owners.draining = true) then none
      else
        some { s with
          connections := Finmap.insert c
            ⟨communityId, channelId, pubkey, protocolVersion, if cfg.mesh then
              .resolving else .resolved none none⟩ s.connections }
    | .connection c event =>
      match Finmap.lookup c s.connections with
      | some conn =>
        (conn.step cfg s.relay event).map fun next =>
          { s with
            relay := next.1
            connections := put s.connections c (next.2.map fun stage => { conn with stage }) }
      | none => none
    | .accept st fenced =>
      if st ∈ s.streams ∨ cfg.mesh = false ∨ fenced.ownerRuntimeId ≠ cfg.localRuntimeId then none
      else some { s with streams := Finmap.insert st ⟨fenced, none, [], none⟩ s.streams }
    | .stream st event =>
      match Finmap.lookup st s.streams with
      | some stream =>
        (stream.step s.relay event).map fun next =>
          { s with relay := next.1, streams := put s.streams st next.2 }
      | none => none
    | .renewer i event =>
      match s.relay.owners.renewers[i]? with
      | some renewer =>
        (renewer.step cfg.directory s.relay.sessions.redis event).map fun next =>
          { s with
            relay := { s.relay with
              sessions := { s.relay.sessions with redis := next.1 }
              owners := { s.relay.owners with renewers := s.relay.owners.renewers.set i next.2 } } }
      | none => none
    | .drain sessionId generation =>
      some { s with relay := { s.relay with owners := s.relay.owners.drain sessionId generation } }
    | .startDrain => some { s with relay := { s.relay with owners := s.relay.owners.startDrain } }
    | .world call =>
      ((sessions cfg.directory).step s.relay.sessions call).map fun sessions =>
        { s with relay := { s.relay with sessions } }

/-- A pod that has just started. -/
def Pod.start : Pod := ⟨⟨.start, .new, .new⟩, ∅, ∅⟩

end Pkzz.Audio
