import Mathlib.Data.List.Sort
import Pkzz.Core.Ids
import Pkzz.Lib.Map

/-!
# Audio rooms

`buzz-relay`'s `audio/room.rs`: the peers of a room, the allocator of their indices, and the roster
deltas that a room publishes. Every method holds the admission lock, so it is one step on the room.

`published` is the log of the roster's broadcast channel, of which a receiver sees the end. The ids
that `Uuid::new_v4` gives are arguments. A revision is a `u64` that wraps. Audio and control queues
and poisoned locks are left out.
-/

namespace Pkzz.Audio

open Pkzz.Core Pkzz.Lib

/-- A connected audio peer, under its id. -/
structure AudioPeer where
  id : Uuid
  pubkey : String
  peerIndex : Nat
  deriving DecidableEq

/-- One authoritative owner-roster entry. -/
structure RosterPeer where
  pubkey : String
  peerIndex : Nat
  deriving DecidableEq

def AudioPeer.entry (p : AudioPeer) : RosterPeer := ⟨p.pubkey, p.peerIndex⟩

/-- A complete owner-roster snapshot at one monotonic revision. -/
structure RosterSnapshot where
  revision : Nat
  peers : List RosterPeer
  deriving DecidableEq

/-- One ordered owner-roster mutation. -/
structure RosterDelta where
  revision : Nat
  joined : Option RosterPeer
  left : Option RosterPeer
  deriving DecidableEq

inductive AdmissionError where
  | ended
  | full
  | versionMismatch (pinned requested : Nat)
  deriving DecidableEq

/-- `MAX_PEERS_PER_ROOM`. -/
def maxPeersPerRoom : Nat := 25

/-! ## The admission guard -/

/-- Peer index allocator and room lifecycle gate. -/
structure AdmissionGuard where
  nextFresh : Nat
  free : List Nat
  ended : Bool
  pinnedVersion : Option Nat
  rosterRevision : Nat

namespace AdmissionGuard

def new : AdmissionGuard := ⟨0, [], false, none, 0⟩

/-- `alloc`: the index that was released last, or a fresh one. -/
def alloc (g : AdmissionGuard) : Option (Nat × AdmissionGuard) :=
  match g.free with
  | idx :: free => some (idx, { g with free })
  | [] => if g.nextFresh = 255 then
      none else some (g.nextFresh, { g with nextFresh := g.nextFresh + 1 })

def release (g : AdmissionGuard) (idx : Nat) : AdmissionGuard := { g with free := idx :: g.free }

/-- The version a peer asks for is the pinned one, or it becomes it. -/
def versionError (g : AdmissionGuard) (requestedVersion : Nat) : Option AdmissionError :=
  match g.pinnedVersion with
  | some pinned => if pinned ≠ requestedVersion then
      some (.versionMismatch pinned requestedVersion) else none
  | none => none

/-- `pinned_version.get_or_insert`. -/
def pin (g : AdmissionGuard) (requestedVersion : Nat) : AdmissionGuard :=
  { g with pinnedVersion := some (g.pinnedVersion.getD requestedVersion) }

end AdmissionGuard

/-! ## The room -/

/-- A single audio room for one channel. -/
structure Room where
  communityId : CommunityId
  channelId : Uuid
  peers : List AudioPeer
  guard : AdmissionGuard
  published : List RosterDelta

namespace Room

def new (communityId : CommunityId) (channelId : Uuid) : Room :=
  ⟨communityId, channelId, [], .new, []⟩

def isEmpty (room : Room) : Bool := room.peers.isEmpty

/-- The next revision, by `wrapping_add(1)`, with what happened in it. -/
def publish (room : Room) (joined left : Option RosterPeer) : Room :=
  let revision := (room.guard.rosterRevision + 1) % 2 ^ 64
  { room with
    guard := { room.guard with rosterRevision := revision }
    published := room.published ++ [⟨revision, joined, left⟩] }

/-- A peer is in the room from now on. -/
def insertPeer (room : Room) (p : AudioPeer) : Room :=
  Room.publish { room with peers := room.peers ++ [p] } (some p.entry) none

/-- `add_peer`. -/
def addPeer (room : Room) (peerId : Uuid) (pubkey : String) (requestedVersion : Nat) :
    Except AdmissionError (Room × Nat) :=
  if room.guard.ended then .error .ended
  else if maxPeersPerRoom ≤ room.peers.length then .error .full
  else
    match room.guard.versionError requestedVersion with
    | some e => .error e
    | none =>
      match room.guard.alloc with
      | none => .error .full
      | some (peerIndex, guard) =>
        .ok (Room.insertPeer { room with guard := guard.pin requestedVersion } ⟨peerId, pubkey,
          peerIndex⟩, peerIndex)

/-- The allocator after an index was given by somebody else. -/
def occupy (g : AdmissionGuard) (peerIndex : Nat) : AdmissionGuard :=
  { g with
    free := g.free.filter fun idx => idx ≠ peerIndex
    nextFresh := if peerIndex ≥ g.nextFresh then min (peerIndex + 1) 255 else g.nextFresh }

/-- `add_peer_at_index`. -/
def addPeerAtIndex (room : Room) (peerId : Uuid) (pubkey : String)
    (requestedVersion peerIndex : Nat) : Except AdmissionError Room :=
  if room.guard.ended then .error .ended
  else if maxPeersPerRoom ≤ room.peers.length ∨ room.peers.any fun p =>
    p.peerIndex == peerIndex then .error .full
  else
    match room.guard.versionError requestedVersion with
    | some e => .error e
    | none =>
      .ok (Room.insertPeer { room with guard := occupy (room.guard.pin requestedVersion) peerIndex }
        ⟨peerId, pubkey, peerIndex⟩)

/-- A peer leaves, and its index is recycled. -/
def dropPeer (room : Room) (p : AudioPeer) : Room :=
  Room.publish { room with
    peers := room.peers.filter (fun q => q.id ≠ p.id), guard := room.guard.release p.peerIndex }
    none (some p.entry)

def findPeer (room : Room) (peerId : Uuid) : Option AudioPeer := room.peers.find? fun p =>
    p.id = peerId

/-- `remove_peer`. -/
def removePeer (room : Room) (peerId : Uuid) : Room :=
  match room.findPeer peerId with
  | some p => room.dropPeer p
  | none => room

/-- `remove_peer_and_check_ended`: whether the caller has to end the room. -/
def removePeerAndCheckEnded (room : Room) (peerId : Uuid) : Room × Bool :=
  match room.findPeer peerId with
  | some p =>
    let room := room.dropPeer p
    if !room.guard.ended && room.isEmpty then
      ({ room with guard := { room.guard with ended := true } }, true)
    else (room, false)
  | none => (room, false)

/-- `clear_ended`. -/
def clearEnded (room : Room) : Room := { room with guard := { room.guard with ended := false } }

/-- `roster_snapshot`. -/
def rosterSnapshot (room : Room) : RosterSnapshot :=
  ⟨room.guard.rosterRevision,
    (room.peers.map AudioPeer.entry).insertionSort fun a b => a.peerIndex ≤ b.peerIndex⟩

/-! ### What a method does to the peers -/

variable {room room' : Room} {peerId : Uuid} {pubkey : String} {requestedVersion peerIndex : Nat}
    {p : AudioPeer}

/-- Everything `add_peer` gives is an insertion at an allocated index. -/
theorem addPeer_ok (h : room.addPeer peerId pubkey requestedVersion = .ok (room', peerIndex)) :
    room.guard.ended = false ∧ ∃ guard, room.guard.alloc = some (peerIndex, guard) ∧
      room' = insertPeer { room with guard := guard.pin requestedVersion } ⟨peerId, pubkey,
        peerIndex⟩ := by
  rw [addPeer] at h
  split at h
  · cases h
  rename_i hended
  split at h
  · cases h
  split at h
  · cases h
  split at h
  · cases h
  · rename_i idx guard halloc
    cases h
    exact ⟨by simpa using hended, guard, halloc, rfl⟩

theorem addPeerAtIndex_ok
    (h : room.addPeerAtIndex peerId pubkey requestedVersion peerIndex = .ok room') :
    room.guard.ended = false ∧ (∀ p ∈ room.peers, p.peerIndex ≠ peerIndex) ∧
      room' = insertPeer { room with guard := occupy (room.guard.pin requestedVersion) peerIndex }
        ⟨peerId, pubkey, peerIndex⟩ := by
  rw [addPeerAtIndex] at h
  split at h
  · cases h
  rename_i hended
  split at h
  · cases h
  rename_i hfull
  split at h
  · cases h
  cases h
  refine ⟨by simpa using hended, ?_, rfl⟩
  intro p hp heq
  exact hfull (.inr (List.any_eq_true.mpr ⟨p, hp, by simpa using heq⟩))

theorem findPeer_eq_some (h : room.findPeer peerId = some p) : p ∈ room.peers ∧ p.id = peerId :=
  ⟨List.mem_of_find?_eq_some h, by simpa using List.find?_some h⟩

/-- A removal drops the peer, if it is there. -/
theorem removePeer_cases (room : Room) (peerId : Uuid) :
    (room.removePeer peerId = room ∧ ∀ p ∈ room.peers, p.id ≠ peerId) ∨
      ∃ p ∈ room.peers, p.id = peerId ∧ room.removePeer peerId = room.dropPeer p := by
  rw [removePeer]
  cases h : room.findPeer peerId with
  | none =>
    refine .inl ⟨rfl, ?_⟩
    intro p hp heq
    exact absurd heq (by simpa using List.find?_eq_none.mp h p hp)
  | some p =>
    obtain ⟨hmem, hid⟩ := findPeer_eq_some h
    exact .inr ⟨p, hmem, hid, rfl⟩

/-- Ending a room is a removal and the flag. -/
theorem removePeerAndCheckEnded_fst (room : Room) (peerId : Uuid) :
    ∃ ended, (room.removePeerAndCheckEnded peerId).1 =
      { room.removePeer peerId with guard := { (room.removePeer peerId).guard with ended } } := by
  rw [removePeerAndCheckEnded, removePeer]
  cases room.findPeer peerId with
  | none => exact ⟨room.guard.ended, rfl⟩
  | some p =>
    dsimp only
    split
    · exact ⟨true, rfl⟩
    · exact ⟨(room.dropPeer p).guard.ended, rfl⟩

end Room

end Pkzz.Audio
