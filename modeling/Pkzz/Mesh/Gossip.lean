import Mathlib.Data.List.Sort
import Mathlib.Data.String.Basic
import Pkzz.Core.Ids
import Pkzz.Lib.OrderedMap

/-!
# The membership table of the relay mesh

`buzz-relay-mesh`: what a relay runtime knows of the runtimes of its deployment, and the
messages that keep the tables of two runtimes level.

* source: crates/buzz-relay-mesh/src/gossip.rs
* source: crates/buzz-relay-mesh/src/membership.rs
* source: crates/buzz-relay-mesh/src/runtime.rs (`control_stream_exchange`, `gossip_tick_loop`)

The counters of a peer, the foreign and stale rejections and the computation of phi are
read by the status page only and are left out. A `HashMap` is a map with some order of
iteration; every message sorts what it takes from one.
-/

namespace Pkzz.Mesh

open Lib Pkzz.Core

/-- `RuntimeId`: a boot-unique endpoint key. -/
abbrev RuntimeId := FixedBytes 32

/-- `u64`. -/
abbrev U64 := Fin (2 ^ 64)

instance neZeroU64 : NeZero (2 ^ 64) := ⟨by decide⟩

/-- `u64::saturating_add(1)`. -/
def saturatingSucc (v : U64) : U64 :=
  if h : v.val + 1 < 2 ^ 64 then ⟨v.val + 1, h⟩ else v

theorem le_saturatingSucc (v : U64) : v ≤ saturatingSucc v := by
  unfold saturatingSucc
  split
  · exact Fin.mk_le_mk.mpr (Nat.le_succ v.val)
  · exact le_refl v

def gossipPayloadVersion : Nat := 1

structure GossipRecord where
  runtimeId : RuntimeId
  endpointAddrs : List String
  protoVersion : UInt16
  load : Float32
  draining : Bool
  capabilities : List String
  version : U64
  heartbeatMillis : U64

/-- `GossipRecord::new`; `now` is the clock. -/
def GossipRecord.new (runtimeId : RuntimeId) (endpointAddrs : List String) (protoVersion : UInt16)
    (now : U64) : GossipRecord :=
  { runtimeId, endpointAddrs, protoVersion, load := 0, draining := false, capabilities := [],
    version := 1,
    heartbeatMillis := now }

structure GossipDigestEntry where
  runtimeId : RuntimeId
  version : U64
  deriving DecidableEq

inductive GossipMessage where
  | digest (version : Nat) (entries : List GossipDigestEntry)
  | delta (version : Nat) (records : List GossipRecord)

/-- The entry a digest carries for a record. -/
def GossipRecord.entry (record : GossipRecord) : GossipDigestEntry :=
  ⟨record.runtimeId, record.version⟩

/-- `entries.sort_by_key(|entry| entry.runtime_id.to_hex())`. -/
def sortEntries (entries : List GossipDigestEntry) : List GossipDigestEntry :=
  entries.insertionSort fun a b => a.runtimeId.toHex ≤ b.runtimeId.toHex

/-- `records.sort_by_key(|record| record.runtime_id.to_hex())`. -/
def sortRecords (records : List GossipRecord) : List GossipRecord :=
  records.insertionSort fun a b => a.runtimeId.toHex ≤ b.runtimeId.toHex

/-- The versions of a digest, collected into a map: the last entry of a runtime counts. -/
def remoteVersions (digest : List GossipDigestEntry) : OrderedMap RuntimeId U64 :=
  OrderedMap.collect (digest.map fun entry => (entry.runtimeId, entry.version))

/-- `remote.get(&record.runtime_id).is_none_or(|version| *version < record.version)`. -/
def remoteLacks (remote : OrderedMap RuntimeId U64) (record : GossipRecord) : Bool :=
  match remote.get record.runtimeId with
  | none => true
  | some version => version < record.version

/-! ## `GossipState` -/

/-- `GossipState`: the pure table, the local record among the others. -/
structure GossipState where
  records : OrderedMap RuntimeId GossipRecord
  /-- A record is stored under its runtime. -/
  keyed : ∀ k record, records.get k = some record → record.runtimeId = k

namespace GossipState

def new (localRecord : GossipRecord) : GossipState where
  records := OrderedMap.empty.set localRecord.runtimeId localRecord
  keyed := by
    intro k record h
    rw [OrderedMap.get_set] at h
    split at h
    · rename_i hk
      rw [hk, ← Option.some.inj h]
    · cases h

def get (state : GossipState) (runtimeId : RuntimeId) : Option GossipRecord :=
  state.records.get runtimeId

def digestEntries (state : GossipState) : List GossipDigestEntry :=
  sortEntries (state.records.values.map GossipRecord.entry)

def digest (state : GossipState) : GossipMessage := .digest gossipPayloadVersion state.digestEntries

def deltaRecords (state : GossipState) (digest : List GossipDigestEntry) : List GossipRecord :=
  let remote := remoteVersions digest
  sortRecords (state.records.values.filter (remoteLacks remote))

def deltaFor (state : GossipState) (digest : List GossipDigestEntry) : GossipMessage :=
  .delta gossipPayloadVersion (state.deltaRecords digest)

/-- `self.records.insert(record.runtime_id, record)`. -/
def insert (state : GossipState) (record : GossipRecord) : GossipState where
  records := state.records.set record.runtimeId record
  keyed := by
    intro k r h
    rw [OrderedMap.get_set] at h
    split at h
    · rename_i hk
      rw [hk, ← Option.some.inj h]
    · exact state.keyed k r h

/-- One round of the loop of `apply_delta`. -/
def applyRecord (state : GossipState) (record : GossipRecord) : GossipState × List RuntimeId :=
  let shouldApply := match state.records.get record.runtimeId with
    | none => true
    | some existing => existing.version < record.version
  if shouldApply then (state.insert record, [record.runtimeId]) else (state, [])

/-- `apply_delta`: the table and the runtimes that changed. -/
def applyDelta (state : GossipState) (records : List GossipRecord) : GossipState × List RuntimeId :=
  records.foldl (fun acc record =>
    let (next, changed) := acc.1.applyRecord record
    (next, acc.2 ++ changed)) (state, [])

end GossipState

/-! ## Peers -/

/-- `PhiAccrual`; instants and intervals in milliseconds. -/
structure PhiAccrual where
  samples : List Nat
  lastHeartbeat : Option Nat
  maxSamples : Nat
  deriving DecidableEq

namespace PhiAccrual

def new (maxSamples : Nat) : PhiAccrual := ⟨[], none, max maxSamples 1⟩

def default : PhiAccrual := new 100

/-- The interval of two heartbeats in order, kept among the last ones. -/
def push (samples : List Nat) (maxSamples interval : Nat) : List Nat :=
  let samples := samples ++ [interval]
  if maxSamples < samples.length then samples.drop 1 else samples

def observe (phi : PhiAccrual) (instant : Nat) : PhiAccrual :=
  match phi.lastHeartbeat with
  | none => { phi with lastHeartbeat := some instant }
  | some prev =>
    -- `duration_since` fails where the clock went back
    if prev < instant then
      { phi with
        samples := push phi.samples phi.maxSamples (instant - prev), lastHeartbeat := some instant }
    else { phi with lastHeartbeat := some instant }

end PhiAccrual

inductive ConnectionState where
  | disconnected
  | connecting
  | connected
  | suspect
  deriving DecidableEq

structure PeerState where
  record : GossipRecord
  phi : PhiAccrual
  connectionState : ConnectionState

/-! ## `ReadyRecord` -/

/-- `ReadyRecord`: what a runtime publishes in the registry. -/
structure ReadyRecord where
  runtimeId : RuntimeId
  runtimePubkey : String
  relayPubkey : String
  relaySig : String
  endpointAddrs : List String
  protoVersion : UInt16
  capabilities : List String

/-- `ReadyRecord::verify_attestation`; `verifySig` is `verify_attestation` over the
secp256k1 crate. -/
def ReadyRecord.verifyAttestation (verifySig : RuntimeId → String → String → Bool)
    (ready : ReadyRecord) : Bool :=
  if ready.runtimePubkey ≠ ready.runtimeId.toHex then false
  else verifySig ready.runtimeId ready.relayPubkey ready.relaySig

/-- The version-1 record a ready record enters as. -/
def ReadyRecord.hint (ready : ReadyRecord) (now : U64) : GossipRecord :=
  { GossipRecord.new ready.runtimeId ready.endpointAddrs ready.protoVersion now with
    capabilities := ready.capabilities }

/-! ## `MeshMembership` -/

/-- A change a runtime makes to its own record. `update_local` takes any closure; those of
the crate leave the runtime and the version alone. -/
structure LocalUpdate where
  update : GossipRecord → GossipRecord
  runtimeId_eq : ∀ record, (update record).runtimeId = record.runtimeId
  version_eq : ∀ record, (update record).version = record.version

/-- The closure of the heartbeat of `gossip_tick_loop`. -/
def LocalUpdate.heartbeat : LocalUpdate := ⟨id, fun _ => rfl, fun _ => rfl⟩

/-- The closure of `begin_drain`. -/
def LocalUpdate.drain : LocalUpdate :=
  ⟨fun record => { record with draining := true }, fun _ => rfl, fun _ => rfl⟩

structure MeshMembership where
  localRuntimeId : RuntimeId
  localRecord : GossipRecord
  peers : OrderedMap RuntimeId PeerState
  draining : Bool
  expectedRelayPubkey : Option String
  /-- The local record is the record of the local runtime. -/
  local_eq : localRecord.runtimeId = localRuntimeId
  /-- A peer is stored under its runtime. -/
  keyed : ∀ k peer, peers.get k = some peer → peer.record.runtimeId = k
  /-- The local runtime is no peer. -/
  foreign : peers.get localRuntimeId = none

namespace MeshMembership

def new (localRecord : GossipRecord) : MeshMembership where
  localRuntimeId := localRecord.runtimeId
  localRecord := localRecord
  peers := OrderedMap.empty
  draining := false
  expectedRelayPubkey := none
  local_eq := rfl
  keyed := by
    intro k peer h
    cases h
  foreign := rfl

def withExpectedRelayPubkey (m : MeshMembership) (pubkeyHex : String) : MeshMembership :=
  { m with expectedRelayPubkey := some pubkeyHex }

/-- `peers.insert`, of a runtime that is not the local one. -/
def insertPeer (m : MeshMembership) (peer : PeerState)
    (h : peer.record.runtimeId ≠ m.localRuntimeId) : MeshMembership :=
  { m with
    peers := m.peers.set peer.record.runtimeId peer
    keyed := by
      intro k p hp
      rw [OrderedMap.get_set] at hp
      split at hp
      · rename_i hk
        rw [hk, ← Option.some.inj hp]
      · exact m.keyed k p hp
    foreign := by
      rw [OrderedMap.get_set, if_neg h.symm]
      exact m.foreign }

/-- `apply_gossip_record`: a record of the local runtime is refused, a foreign one is applied
if it is newer than what is held. -/
def applyGossipRecord (m : MeshMembership) (record : GossipRecord) : MeshMembership × Bool :=
  if h : record.runtimeId = m.localRuntimeId then (m, false)
  else
    match m.peers.get record.runtimeId with
    | some peer =>
      if record.version ≤ peer.record.version then (m, false)
      else
        let next := { peer with
            record, connectionState := .connected, phi := peer.phi.observe record.heartbeatMillis }
        (m.insertPeer next h, true)
    | none =>
      let peer := {
          record, phi := PhiAccrual.default.observe record.heartbeatMillis,
          connectionState := .connected }
      (m.insertPeer peer h, true)

/-- One round of the loop of `apply_ready_records`; `now` is the clock. -/
def applyReadyRecord (verifySig : RuntimeId → String → String → Bool) (m : MeshMembership)
    (ready : ReadyRecord) (now : U64) : MeshMembership :=
  if ready.runtimeId = m.localRuntimeId then m
  else if m.expectedRelayPubkey ≠ some ready.relayPubkey then m
  else if ¬ ready.verifyAttestation verifySig then m
  else (m.applyGossipRecord (ready.hint now)).1

/-- `mark_connection_state`. -/
def markConnectionState (m : MeshMembership) (runtimeId : RuntimeId) (state : ConnectionState) :
    MeshMembership :=
  match h : m.peers.get runtimeId with
  | none => m
  | some peer =>
    m.insertPeer { peer with connectionState := state } (by
      intro heq
      rw [show peer.record.runtimeId = runtimeId from m.keyed _ _ h] at heq
      rw [heq, m.foreign] at h
      cases h)

/-- `update_local`; `now` is the clock. -/
def updateLocal (m : MeshMembership) (u : LocalUpdate) (now : U64) : MeshMembership :=
  let updated := u.update m.localRecord
  { m with
    localRecord := { updated with
      version := saturatingSucc updated.version, heartbeatMillis := now }
    local_eq := (u.runtimeId_eq m.localRecord).trans m.local_eq }

/-- `begin_drain`. -/
def beginDrain (m : MeshMembership) (now : U64) : MeshMembership :=
  { m with draining := true }.updateLocal .drain now

/-- `records`: the peers, then the local record. -/
def records (m : MeshMembership) : List GossipRecord :=
  m.peers.values.map PeerState.record ++ [m.localRecord]

def digestEntries (m : MeshMembership) : List GossipDigestEntry :=
  sortEntries (m.records.map GossipRecord.entry)

def digest (m : MeshMembership) : GossipMessage := .digest gossipPayloadVersion m.digestEntries

def deltaRecords (m : MeshMembership) (digest : List GossipDigestEntry) : List GossipRecord :=
  let remote := remoteVersions digest
  sortRecords (m.records.filter (remoteLacks remote))

def deltaFor (m : MeshMembership) (digest : List GossipDigestEntry) : GossipMessage :=
  .delta gossipPayloadVersion (m.deltaRecords digest)

/-- The loop over the records of a delta. -/
def applyRecords (m : MeshMembership) (records : List GossipRecord) : MeshMembership :=
  records.foldl (fun m record => (m.applyGossipRecord record).1) m

/-- A gossip message as `control_stream_exchange` takes it: a digest is answered, a delta is
applied; `decode_message` refuses another payload version. -/
def receive (m : MeshMembership) : GossipMessage → MeshMembership × Option GossipMessage
  | .digest version entries =>
    if version ≠ gossipPayloadVersion then (m, none) else (m, some (m.deltaFor entries))
  | .delta version records =>
    if version ≠ gossipPayloadVersion then (m, none) else (m.applyRecords records, none)

end MeshMembership

end Pkzz.Mesh
