import Pkzz.Audio.Room

/-!
# The rooms of a pod

`AudioRoomManager` of `audio/room.rs`. A connection holds the `Arc` of its room for as long as it
lives, also when the map has let the room go, so a room has a handle: its place among all the rooms
that were ever created.
-/

namespace Pkzz.Audio

open Pkzz.Core Pkzz.Lib

/-- A huddle on a pod: its community and its channel. -/
abbrev HuddleKey := CommunityId × Uuid

/-- The key a room was created for. -/
def Room.key (room : Room) : HuddleKey := (room.communityId, room.channelId)

/-! ## What a method does to the key and to the peers -/

namespace Room

variable {room room' : Room} {peerId : Uuid} {pubkey : String} {requestedVersion peerIndex : Nat}

/-- The room after an admission, with the guard aside. -/
structure Entered (room room' : Room) (p : AudioPeer) : Prop where
  key : room'.key = room.key
  peers : room'.peers = room.peers ++ [p]

theorem entered_addPeer (h : room.addPeer peerId pubkey requestedVersion = .ok (room', peerIndex)) :
    room.Entered room' ⟨peerId, pubkey, peerIndex⟩ := by
  obtain ⟨_, guard, _, rfl⟩ := addPeer_ok h
  exact ⟨rfl, rfl⟩

theorem entered_addPeerAtIndex
    (h : room.addPeerAtIndex peerId pubkey requestedVersion peerIndex = .ok room') :
    room.Entered room' ⟨peerId, pubkey, peerIndex⟩ := by
  obtain ⟨_, _, rfl⟩ := addPeerAtIndex_ok h
  exact ⟨rfl, rfl⟩

/-- A method that lets nobody in. -/
structure Thins (room room' : Room) : Prop where
  key : room'.key = room.key
  peers : ∀ p ∈ room'.peers, p ∈ room.peers

theorem thins_refl (room : Room) : room.Thins room := ⟨rfl, fun _ hp => hp⟩

theorem thins_removePeer (room : Room) (peerId : Uuid) : room.Thins (room.removePeer peerId) := by
  rcases removePeer_cases room peerId with ⟨hsame, _⟩ | ⟨p, _, _, hdrop⟩
  · rw [hsame]
    exact thins_refl room
  · rw [hdrop]
    exact ⟨rfl, fun q hq => (List.mem_filter.mp hq).1⟩

theorem thins_removePeerAndCheckEnded (room : Room) (peerId : Uuid) :
    room.Thins (room.removePeerAndCheckEnded peerId).1 := by
  obtain ⟨ended, hroom⟩ := removePeerAndCheckEnded_fst room peerId
  rw [hroom]
  exact ⟨(thins_removePeer room peerId).key, (thins_removePeer room peerId).peers⟩

theorem thins_clearEnded (room : Room) : room.Thins room.clearEnded := ⟨rfl, fun _ hp => hp⟩

/-- `remove_peer`, for each peer of a stream. -/
def removePeers (room : Room) (peerIds : List Uuid) : Room := peerIds.foldl removePeer room

theorem thins_removePeers (room : Room) (peerIds : List Uuid) :
    room.Thins (room.removePeers peerIds) := by
  induction peerIds generalizing room with
  | nil => exact thins_refl room
  | cons peerId peerIds ih =>
    have hfirst := thins_removePeer room peerId
    have hrest := ih (room.removePeer peerId)
    exact ⟨hrest.key.trans hfirst.key, fun p hp => hfirst.peers p (hrest.peers p hp)⟩

end Room

/-! ## The manager -/

/-- The rooms that were created, and the map with the handles of those that are registered. -/
structure AudioRoomManager where
  created : List Room
  rooms : Map HuddleKey Nat

namespace AudioRoomManager

def new : AudioRoomManager := ⟨[], ∅⟩

/-- `get_or_create`. -/
def getOrCreate (m : AudioRoomManager) (key : HuddleKey) : AudioRoomManager × Nat :=
  match Finmap.lookup key m.rooms with
  | some handle => (m, handle)
  | none =>
    (⟨m.created ++ [Room.new key.1 key.2],
      Finmap.insert key m.created.length m.rooms⟩, m.created.length)

/-- `get`. -/
def get (m : AudioRoomManager) (key : HuddleKey) : Option Nat := Finmap.lookup key m.rooms

/-- The room in the map, and nobody in it. -/
def vacant (m : AudioRoomManager) (key : HuddleKey) : Bool :=
  ((m.get key).bind fun handle => m.created[handle]?).any Room.isEmpty

/-- `cleanup_if_empty`. -/
def cleanupIfEmpty (m : AudioRoomManager) (key : HuddleKey) : AudioRoomManager × Bool :=
  if m.vacant key then ({ m with rooms := Finmap.erase key m.rooms }, true) else (m, false)

/-- A method of the room behind a handle. -/
def update (m : AudioRoomManager) (handle : Nat) (f : Room → Room) : AudioRoomManager :=
  { m with created := m.created.modify handle f }

/-- Nobody on the pod has this id. -/
def fresh (m : AudioRoomManager) (peerId : Uuid) : Bool :=
  m.created.all fun room => room.peers.all fun p => p.id ≠ peerId

/-- `add_peer` of the room behind a handle. -/
def addPeer (m : AudioRoomManager) (handle : Nat) (peerId : Uuid) (pubkey : String)
    (requestedVersion : Nat) : Option AudioRoomManager :=
  match m.created[handle]? with
  | some room =>
    match room.addPeer peerId pubkey requestedVersion with
    | .ok (room', _) => some (m.update handle fun _ => room')
    | .error _ => none
  | none => none

/-- `add_peer_at_index` of the room behind a handle. -/
def addPeerAtIndex (m : AudioRoomManager) (handle : Nat) (peerId : Uuid) (pubkey : String)
    (requestedVersion peerIndex : Nat) : Option AudioRoomManager :=
  match m.created[handle]? with
  | some room =>
    match room.addPeerAtIndex peerId pubkey requestedVersion peerIndex with
    | .ok room' => some (m.update handle fun _ => room')
    | .error _ => none
  | none => none

/-! ### Rooms behind their handles -/

variable {m m' : AudioRoomManager} {key key' : HuddleKey} {handle handle' : Nat} {room : Room}
    {f : Room → Room}

theorem getElem?_update : (m.update handle f).created[handle']? =
    if handle = handle' then (m.created[handle']?).map f else m.created[handle']? := by
  rw [update, List.getElem?_modify]
  cases m.created[handle']? with
  | none => split <;> rfl
  | some room => split <;> rfl

/-- The map gives the room of its key. -/
def Keyed (m : AudioRoomManager) : Prop :=
  ∀ key handle, Finmap.lookup key m.rooms = some handle → ∃ room, m.created[handle]? = some room ∧
    room.key = key

theorem keyed_new : new.Keyed := by
  intro key handle h
  cases h

theorem keyed_update (h : m.Keyed)
    (hf : ∀ room, m.created[handle]? = some room → (f room).key = room.key) :
    (m.update handle f).Keyed := by
  intro key handle' hmap
  obtain ⟨room, hroom, hkey⟩ := h key handle' hmap
  rw [getElem?_update, hroom]
  by_cases heq : handle = handle'
  · rw [if_pos heq]
    exact ⟨f room, rfl, (hf room (heq ▸ hroom)).trans hkey⟩
  · rw [if_neg heq]
    exact ⟨room, rfl, hkey⟩

theorem keyed_cleanup (h : m.Keyed) : (m.cleanupIfEmpty key).1.Keyed := by
  rw [cleanupIfEmpty]
  split
  · intro key' handle hmap
    rw [Map.lookup_erase_eq] at hmap
    split at hmap
    · cases hmap
    · exact h key' handle hmap
  · exact h

/-- A new room is behind a new handle, under a key that had none. -/
theorem getOrCreate_cases (m : AudioRoomManager) (key : HuddleKey) :
    (m.get key = some (m.getOrCreate key).2 ∧ (m.getOrCreate key).1 = m) ∨
    (m.get key = none ∧ (m.getOrCreate key).2 = m.created.length ∧
      (m.getOrCreate key).1 = ⟨m.created ++ [Room.new key.1 key.2],
        Finmap.insert key m.created.length m.rooms⟩) := by
  rw [getOrCreate, get]
  cases Finmap.lookup key m.rooms with
  | some handle => exact .inl ⟨rfl, rfl⟩
  | none => exact .inr ⟨rfl, rfl, rfl⟩

theorem keyed_getOrCreate (h : m.Keyed) (key : HuddleKey) : (m.getOrCreate key).1.Keyed := by
  rcases getOrCreate_cases m key with ⟨_, hsame⟩ | ⟨_, _, hnew⟩
  · rw [hsame]
    exact h
  rw [hnew]
  intro key' handle hmap
  rw [Map.lookup_insert_eq] at hmap
  split at hmap
  · rename_i hkey
    rw [← Option.some.inj hmap, hkey]
    refine ⟨Room.new key.1 key.2, ?_, rfl⟩
    rw [List.getElem?_append_right le_rfl, Nat.sub_self]
    rfl
  · obtain ⟨room, hroom, hkey'⟩ := h key' handle hmap
    obtain ⟨hlt, _⟩ := List.getElem?_eq_some_iff.mp hroom
    exact ⟨room, by rw [List.getElem?_append_left hlt, hroom], hkey'⟩

/-- Somebody is in the room behind a handle who was not there before. -/
def Enters (m m' : AudioRoomManager) (handle : Nat) : Prop :=
  ∃ room room' p, m.created[handle]? = some room ∧ room.Entered room' p ∧
    m' = m.update handle fun _ => room'

theorem enters_addPeer {peerId : Uuid} {pubkey : String} {requestedVersion : Nat}
    (h : m.addPeer handle peerId pubkey requestedVersion = some m') : m.Enters m' handle := by
  rw [addPeer] at h
  split at h
  · rename_i room hroom
    split at h
    · rename_i room' peerIndex hok
      exact ⟨room, room', _, hroom, Room.entered_addPeer hok, (Option.some.inj h).symm⟩
    · cases h
  · cases h

theorem enters_addPeerAtIndex {peerId : Uuid} {pubkey : String} {requestedVersion peerIndex : Nat}
    (h : m.addPeerAtIndex handle peerId pubkey requestedVersion peerIndex = some m') :
    m.Enters m' handle := by
  rw [addPeerAtIndex] at h
  split at h
  · rename_i room hroom
    split at h
    · rename_i room' hok
      exact ⟨room, room', _, hroom, Room.entered_addPeerAtIndex hok, (Option.some.inj h).symm⟩
    · cases h
  · cases h

end AudioRoomManager

end Pkzz.Audio
