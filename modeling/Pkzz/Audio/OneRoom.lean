import Pkzz.Audio.Pod

/-!
# One room for a huddle

A joiner holds its room from `get_or_create` on, but is in it only from the admission on. A
`cleanup_if_empty` in between takes the room out of the map, and the next joiner gets another one.
-/

namespace Pkzz.Audio

open Pkzz.Core Pkzz.Lib Pkzz.Tunnel

/-! ## What a step does to the rooms -/

/-- What may happen to the rooms in a step for a key, and the room somebody enters in it. -/
inductive Effect (key : Option HuddleKey) (m : AudioRoomManager) : Option Nat →
    AudioRoomManager → Prop where
  | same : Effect key m none m
  | getOrCreate {k : HuddleKey} (hkey : key = some k) : Effect key m none (m.getOrCreate k).1
  | enter {m' : AudioRoomManager} {handle : Nat} (henters : m.Enters m' handle) :
      Effect key m (some handle) m'
  | thin {handle : Nat} {f : Room → Room} (hthins : ∀ room : Room, room.Thins (f room)) :
      Effect key m none (m.update handle f)
  | cleanup {k : HuddleKey} (hkey : key = some k) : Effect key m none (m.cleanupIfEmpty k).1

variable {cfg : Config} {r r' : Relay} {conn : Connection} {st : ControlStream}
    {stage' : Option JoinStage}
  {st' : Option ControlStream}

/-- The room a connection's step admits it to. -/
def Connection.enters (r : Relay) (conn : Connection) : ConnectionEvent → Option Nat
  | .addPeer peerId ownerIndex =>
    match conn.stage with
    | .obtained room pendingRemote _ =>
        (conn.admission r room pendingRemote peerId ownerIndex).map fun _ => room
    | _ => none
  | _ => none

/-- The room a stream's step admits a remote peer to. -/
def ControlStream.enters (r : Relay) (st : ControlStream) : StreamEvent → Option Nat
  | .fence peerId =>
    match st.pending, st.streamCommunity with
    | some (room, pubkey, protocolVersion), some communityId =>
      match SessionDirectory.validateFencedHeader r.sessions.redis communityId st.fenced with
      | .ok () => (r.rooms.addPeer room peerId pubkey protocolVersion).map fun _ => room
      | .error _ => none
    | _, _ => none
  | _ => none

theorem enters_admission {room : Nat} {pendingRemote : Option JoinOutcome} {peerId : Uuid}
    {ownerIndex : Nat}
    {rooms : AudioRoomManager}
    (h : conn.admission r room pendingRemote peerId ownerIndex = some rooms) :
    r.rooms.Enters rooms room := by
  rw [Connection.admission] at h
  split at h
  · exact AudioRoomManager.enters_addPeerAtIndex h
  · exact AudioRoomManager.enters_addPeer h

theorem resolve_rooms {now : Int} (h : conn.resolve cfg r now = some (r', stage')) :
    r'.rooms = r.rooms := by
  rw [Connection.resolve] at h
  split at h
  · split at h <;> cases h <;> rfl
  · dsimp only at h
    split at h <;> cases h <;> rfl
  · split at h <;> cases h <;> rfl
  · split at h <;> cases h <;> rfl
  · cases h

theorem attach_rooms (h : conn.attach r = some (r', stage')) : r'.rooms = r.rooms := by
  rw [Connection.attach] at h
  split at h
  · split at h <;> cases h <;> rfl
  all_goals cases h
  all_goals rfl

theorem join_rooms {event : ConnectionEvent} (h : conn.join r event = some (r', stage')) :
    Effect (some conn.key) r.rooms (conn.enters r event) r'.rooms := by
  cases event with
  | getOrCreate =>
    rw [Connection.join] at h
    split at h
    · cases h
      exact .getOrCreate rfl
    · cases h
  | refuse failure =>
    rw [Connection.join] at h
    split at h
    · dsimp only at h
      split at h
      · split at h
        · cases h
        · cases h
          exact .same
      · cases h
        exact .cleanup rfl
      · cases h
        exact .cleanup rfl
      · split at h
        · cases h
          exact .cleanup rfl
        · cases h
      · split at h
        · cases h
          exact .cleanup rfl
        · cases h
    · cases h
  | addPeer peerId ownerIndex =>
    rw [Connection.join] at h
    rw [Connection.enters.eq_def]
    cases hstage : conn.stage with
    | obtained room pendingRemote acquiredLease =>
      rw [hstage] at h
      dsimp only at h ⊢
      split at h
      · cases hadmission : conn.admission r room pendingRemote peerId ownerIndex with
        | some rooms =>
          rw [hadmission] at h
          cases h
          exact .enter (enters_admission hadmission)
        | none =>
          rw [hadmission] at h
          cases h
          exact .same
      · cases h
    | _ =>
      rw [hstage] at h
      cases h
  | resolve now => cases h
  | giveUp => cases h
  | attach => cases h
  | leave archived => cases h

theorem leave_rooms {archived : Bool} (h : conn.leave r archived = some (r', stage')) :
    Effect (some conn.key) r.rooms none r'.rooms := by
  rw [Connection.leave] at h
  split at h
  · cases h
    rw [Connection.removal]
    split
    · exact .thin fun room => Room.thins_removePeer room _
    · exact .thin fun room => Room.thins_removePeerAndCheckEnded room _
  · split at h
    · cases h
      exact .same
    · cases h
      exact .thin Room.thins_clearEnded
  · cases h
    exact .cleanup rfl
  · cases h
    exact .same
  · cases h

theorem connection_rooms {event : ConnectionEvent} (h : conn.step cfg r event = some (r', stage')) :
    Effect (some conn.key) r.rooms (conn.enters r event) r'.rooms := by
  cases event with
  | resolve now =>
    rw [resolve_rooms h]
    exact .same
  | giveUp =>
    rw [Connection.step] at h
    split at h <;> cases h <;> exact .same
  | attach =>
    rw [attach_rooms h]
    exact .same
  | leave archived => exact leave_rooms h
  | getOrCreate => exact join_rooms h
  | refuse failure => exact join_rooms h
  | addPeer peerId ownerIndex => exact join_rooms h

theorem teardown_rooms (r : Relay) (st : ControlStream) (key : Option HuddleKey) :
    Effect key r.rooms none (st.teardown r).rooms := by
  rw [ControlStream.teardown]
  split
  · exact .thin fun room => Room.thins_removePeers room _
  · exact .same

section Fence

variable {st : ControlStream} {room : Nat} {pubkey : String} {protocolVersion : Nat}
  {communityId : CommunityId}

theorem enters_fence_ok (hpending : st.pending = some (room, pubkey, protocolVersion))
    (hcommunity : st.streamCommunity = some communityId)
    (hvalidate : SessionDirectory.validateFencedHeader r.sessions.redis communityId st.fenced =
      .ok ()) (peerId : Uuid) :
    st.enters r (.fence peerId) =
      (r.rooms.addPeer room peerId pubkey protocolVersion).map fun _ => room := by
  simp [ControlStream.enters, hpending, hcommunity, hvalidate]

theorem enters_fence_error {e : MeshError}
    (hpending : st.pending = some (room, pubkey, protocolVersion))
    (hcommunity : st.streamCommunity = some communityId)
    (hvalidate : SessionDirectory.validateFencedHeader r.sessions.redis communityId st.fenced =
      .error e) (peerId : Uuid) : st.enters r (.fence peerId) = none := by
  simp [ControlStream.enters, hpending, hcommunity, hvalidate]

end Fence

theorem stream_rooms {event : StreamEvent} (h : st.step r event = some (r', st')) :
    Effect (st'.bind ControlStream.key) r.rooms (st.enters r event) r'.rooms := by
  cases event with
  | register communityId pubkey protocolVersion =>
    rw [ControlStream.step] at h
    split at h
    · cases h
    split at h
    · cases h
      exact teardown_rooms r st _
    dsimp only at h
    split at h
    · cases h
      exact teardown_rooms r _ _
    · cases h
      exact .getOrCreate rfl
  | fence peerId =>
    rw [ControlStream.step] at h
    split at h
    · rename_i room pubkey protocolVersion communityId hpending hcommunity
      split at h
      · cases hvalidate : SessionDirectory.validateFencedHeader r.sessions.redis communityId
          st.fenced with
        | ok u =>
          rw [enters_fence_ok hpending hcommunity hvalidate]
          simp only [hvalidate] at h
          cases hadd : r.rooms.addPeer room peerId pubkey protocolVersion with
          | some rooms =>
            simp only [hadd] at h
            cases h
            exact .enter (AudioRoomManager.enters_addPeer hadd)
          | none =>
            simp only [hadd] at h
            cases h
            exact .same
        | error e =>
          rw [enters_fence_error hpending hcommunity hvalidate]
          rw [hvalidate] at h
          cases e with
          | transport error =>
            cases h
            exact teardown_rooms r st _
          | _ =>
            cases h
            exact .same
      · cases h
    · cases h
  | unregister pubkey =>
    rw [ControlStream.step] at h
    split at h
    · cases h
    split at h
    · dsimp only at h
      split at h
      · cases h
        exact .thin fun room => Room.thins_removePeer room _
      · cases h
        exact .same
    · cases h
      exact .same
  | close =>
    cases h
    exact teardown_rooms r st _

/-- The room that a step of the pod admits somebody to. -/
def Event.enters (s : Pod) : Event → Option Nat
  | .connection c event => (Finmap.lookup c s.connections).bind fun conn =>
      conn.enters s.relay event
  | .stream st event => (Finmap.lookup st s.streams).bind fun stream => stream.enters s.relay event
  | _ => none

variable {s s' : Pod} {a : Event}

/-- **Every step of the pod is one of the effects on its rooms.** -/
theorem pod_rooms (h : (pod cfg).step s a = some s') :
    ∃ key, Effect key s.relay.rooms (a.enters s) s'.relay.rooms := by
  cases a with
  | connect c communityId channelId pubkey protocolVersion | accept st fenced =>
    rw [pod] at h
    dsimp only at h
    split at h
    · cases h
    · cases h
      exact ⟨none, .same⟩
  | connection c event =>
    rw [pod] at h
    dsimp only at h
    rw [Event.enters.eq_def]
    dsimp only
    split at h
    · rename_i conn hconn
      rw [hconn, Option.bind_some]
      obtain ⟨⟨r', stage'⟩, hstep, rfl⟩ := Option.map_eq_some_iff.mp h
      exact ⟨_, connection_rooms hstep⟩
    · cases h
  | stream st event =>
    rw [pod] at h
    dsimp only at h
    rw [Event.enters.eq_def]
    dsimp only
    split at h
    · rename_i stream hstream
      rw [hstream, Option.bind_some]
      obtain ⟨⟨r', stream'⟩, hstep, rfl⟩ := Option.map_eq_some_iff.mp h
      exact ⟨_, stream_rooms hstep⟩
    · cases h
  | renewer i event =>
    rw [pod] at h
    dsimp only at h
    split at h
    · obtain ⟨next, _, rfl⟩ := Option.map_eq_some_iff.mp h
      exact ⟨none, .same⟩
    · cases h
  | drain sessionId generation =>
    cases h
    exact ⟨none, .same⟩
  | startDrain =>
    cases h
    exact ⟨none, .same⟩
  | world call =>
    obtain ⟨next, _, rfl⟩ := Option.map_eq_some_iff.mp h
    exact ⟨none, .same⟩

/-! ## The property -/

/-- **One room.** A room with somebody in it is the one the map has for its key. -/
def OneRoom (m : AudioRoomManager) : Prop :=
  ∀ handle room, m.created[handle]? = some room → room.peers ≠ [] → m.get room.key = some handle

/-- The map still has the room. -/
def AudioRoomManager.registered (m : AudioRoomManager) (handle : Nat) : Bool :=
  (m.created[handle]?).any fun room => m.get room.key = some handle

/-- Whoever is admitted in a step is admitted to a room that the map still has. -/
def EntersRegistered (s : Pod) (a : Event) : Prop :=
  ∀ handle ∈ a.enters s, s.relay.rooms.registered handle = true

instance (s : Pod) (a : Event) : Decidable (EntersRegistered s a) :=
  inferInstanceAs (Decidable (∀ handle ∈ a.enters s, s.relay.rooms.registered handle = true))

variable {m m' : AudioRoomManager} {key : Option HuddleKey} {entered : Option Nat}

theorem keyed_effect (h : m.Keyed) (heffect : Effect key m entered m') : m'.Keyed := by
  cases heffect with
  | same => exact h
  | getOrCreate hkey => exact AudioRoomManager.keyed_getOrCreate h _
  | enter henters =>
    obtain ⟨room, room', p, hroom, hentered, rfl⟩ := henters
    refine AudioRoomManager.keyed_update h ?_
    intro room₀ hroom₀
    rw [hroom] at hroom₀
    cases hroom₀
    exact hentered.key
  | thin hthins => exact AudioRoomManager.keyed_update h fun room _ => (hthins room).key
  | cleanup hkey => exact AudioRoomManager.keyed_cleanup h

theorem oneRoom_getOrCreate (h : OneRoom m) (k : HuddleKey) : OneRoom (m.getOrCreate k).1 := by
  rcases AudioRoomManager.getOrCreate_cases m k with ⟨_, hsame⟩ | ⟨hnone, _, hnew⟩
  · rw [hsame]
    exact h
  rw [hnew]
  intro handle room hroom hpeers
  dsimp only at hroom
  by_cases hlt : handle < m.created.length
  · rw [List.getElem?_append_left hlt] at hroom
    have hmapped := h handle room hroom hpeers
    have hne : room.key ≠ k := by
      intro heq
      rw [heq, hnone] at hmapped
      cases hmapped
    show Finmap.lookup room.key (Finmap.insert k _ m.rooms) = some handle
    rw [Map.lookup_insert_eq, if_neg hne]
    exact hmapped
  · rw [List.getElem?_append_right (Nat.not_lt.mp hlt)] at hroom
    obtain ⟨hlast, hroom⟩ := List.getElem?_eq_some_iff.mp hroom
    have hzero : handle - m.created.length = 0 := Nat.lt_one_iff.mp hlast
    simp only [hzero, List.getElem_cons_zero] at hroom
    exact absurd (hroom ▸ rfl) hpeers

/-- An admission keeps one room exactly when the room is in the map. -/
theorem oneRoom_enters {handle : Nat} (h : OneRoom m) (henters : m.Enters m' handle) :
    OneRoom m' ↔ m.registered handle = true := by
  obtain ⟨room, room', p, hroom, ⟨hkey, hpeers⟩, rfl⟩ := henters
  have hregistered : m.registered handle = true ↔ m.get room.key = some handle := by
    rw [AudioRoomManager.registered, hroom, Option.any_some, decide_eq_true_eq]
  rw [hregistered]
  constructor
  · intro hone
    have hmapped := hone handle room'
        (by rw [AudioRoomManager.getElem?_update, if_pos rfl, hroom]; rfl) (by rw [hpeers]; simp)
    rw [hkey] at hmapped
    exact hmapped
  · intro hmapped handle₀ room₀ hroom₀ hpeers₀
    rw [AudioRoomManager.getElem?_update] at hroom₀
    split at hroom₀
    · rename_i heq
      rw [← heq, hroom] at hroom₀
      rw [← Option.some.inj hroom₀, ← heq, hkey]
      exact hmapped
    · exact h handle₀ room₀ hroom₀ hpeers₀

theorem oneRoom_thin {handle : Nat} {f : Room → Room} (h : OneRoom m)
    (hthins : ∀ room : Room, room.Thins (f room)) : OneRoom (m.update handle f) := by
  intro handle₀ room₀ hroom₀ hpeers₀
  rw [AudioRoomManager.getElem?_update] at hroom₀
  split at hroom₀
  · obtain ⟨room, hroom, rfl⟩ := Option.map_eq_some_iff.mp hroom₀
    rw [(hthins room).key]
    refine h handle₀ room hroom ?_
    intro hnil
    obtain ⟨p, hp⟩ := List.exists_mem_of_ne_nil _ hpeers₀
    have hmem := (hthins room).peers p hp
    rw [hnil] at hmem
    cases hmem
  · exact h handle₀ room₀ hroom₀ hpeers₀

/-- What `cleanup_if_empty` lets go is empty. -/
theorem oneRoom_cleanup (h : OneRoom m) (k : HuddleKey) : OneRoom (m.cleanupIfEmpty k).1 := by
  rw [AudioRoomManager.cleanupIfEmpty]
  split
  · rename_i hvacant
    intro handle room hroom hpeers
    have hmapped := h handle room hroom hpeers
    have hne : room.key ≠ k := by
      intro heq
      rw [AudioRoomManager.vacant, ← heq, hmapped, Option.bind_some, hroom, Option.any_some,
        Room.isEmpty] at hvacant
      exact hpeers (by simpa using hvacant)
    show Finmap.lookup room.key (Finmap.erase k m.rooms) = some handle
    rw [Map.lookup_erase_eq, if_neg hne]
    exact hmapped
  · exact h

/-- **An effect keeps one room exactly when whoever enters enters a room of the map.** -/
theorem oneRoom_effect (h : OneRoom m) (heffect : Effect key m entered m') :
    OneRoom m' ↔ ∀ handle ∈ entered, m.registered handle = true := by
  cases heffect with
  | same =>
    refine iff_of_true h ?_
    intro handle hmem
    cases hmem
  | getOrCreate hkey =>
    refine iff_of_true (oneRoom_getOrCreate h _) ?_
    intro handle hmem
    cases hmem
  | enter henters =>
    rw [oneRoom_enters h henters]
    constructor
    · intro hregistered handle hmem
      cases hmem
      exact hregistered
    · intro hall
      exact hall _ rfl
  | thin hthins =>
    refine iff_of_true (oneRoom_thin h hthins) ?_
    intro handle hmem
    cases hmem
  | cleanup hkey =>
    refine iff_of_true (oneRoom_cleanup h _) ?_
    intro handle hmem
    cases hmem

/-- **One room for a huddle.** In a run all states have one room for each huddle exactly when every
admission, of a connection or over a stream, is to a room that the map still has. -/
theorem one_room_iff {events : List Event} (hrun : (pod cfg).run .start events = some s) :
    (∀ n t, (pod cfg).run .start (events.take n) = some t → OneRoom t.relay.rooms) ↔
      (pod cfg).Always EntersRegistered .start events := by
  refine (Machine.always_iff (J := fun s => s.relay.rooms.Keyed) (I :=
    fun s => OneRoom s.relay.rooms) ?_ ?_ ?_ ?_ hrun).symm
  · intro s a s' hkeyed hstep
    obtain ⟨key, heffect⟩ := pod_rooms hstep
    exact keyed_effect hkeyed heffect
  · intro s a s' _ hone hstep
    obtain ⟨key, heffect⟩ := pod_rooms hstep
    exact oneRoom_effect hone heffect
  · exact AudioRoomManager.keyed_new
  · intro handle room hroom
    cases hroom

/-! ### Two runs -/

/-- A pod without a mesh. -/
def singlePod : Config := ⟨.ofNat 32 3, ⟨30000⟩, false⟩

def sampleKey : HuddleKey := (⟨.ofNat 16 1⟩, FixedBytes.ofNat 16 2)

/-- A client of the huddle comes as far as its room. -/
def arrives (c : Nat) (pubkey : String) : List Event :=
  [.connect c sampleKey.1 sampleKey.2 pubkey 2, .connection c .getOrCreate]

/-- Two clients meet, and one of them leaves. -/
def meeting : List Event :=
  arrives 1 "a" ++ arrives 2 "b" ++
    [.connection 1 (.addPeer (.ofNat 16 11) 0),
      .connection 2 (.addPeer (.ofNat 16 12) 0),
      .connection 1 .attach, .connection 1 (.leave true), .connection 1 (.leave true)]

/-- One client leaves the room that the other stays in. -/
theorem one_room_iff_meeting : ∃ s, (pod singlePod).run .start meeting = some s ∧
    s.relay.rooms.created.map (fun room => room.peers.map AudioPeer.pubkey) = [["b"]] ∧
      OneRoom s.relay.rooms := by
  have hrun : ((pod singlePod).run .start meeting).map
      (fun s => s.relay.rooms.created.map fun room => room.peers.map AudioPeer.pubkey) =
        some [["b"]] := by decide
  have halways : (pod singlePod).Always EntersRegistered .start meeting := by decide
  obtain ⟨s, hs, hend⟩ := Option.map_eq_some_iff.mp hrun
  exact ⟨s, hs, hend, (one_room_iff hs).mpr halways meeting.length s
    (by rw [List.take_length]; exact hs)⟩

/-- The channel cannot be read for the first client, and its cleanup takes the room of the second
one out of the map. The third gets a new room. -/
def parted : List Event :=
  arrives 1 "a" ++ arrives 2 "b" ++
    [.connection 1 (.refuse .channelCheckFailed),
      .connection 2 (.addPeer (.ofNat 16 12) 0)] ++
    arrives 3 "c" ++ [.connection 3 (.addPeer (.ofNat 16 13) 0)]

/-- Two rooms of one channel have a client each. -/
theorem not_one_room : ∃ s, (pod singlePod).run .start parted = some s ∧
    s.relay.rooms.created.map (fun room => (room.key, room.peers.map AudioPeer.pubkey)) =
      [(sampleKey, ["b"]), (sampleKey, ["c"])] ∧ ¬ OneRoom s.relay.rooms := by
  have hrun : ((pod singlePod).run .start parted).map
      (fun s => s.relay.rooms.created.map fun room => (room.key, room.peers.map AudioPeer.pubkey)) =
        some [(sampleKey, ["b"]), (sampleKey, ["c"])] := by decide
  obtain ⟨s, hs, hrooms⟩ := Option.map_eq_some_iff.mp hrun
  refine ⟨s, hs, hrooms, ?_⟩
  intro hone
  -- either room has somebody in it, so the map would have both
  have hmapped : ∀ (handle : Nat) (pubkey : String),
      ([(sampleKey, ["b"]), (sampleKey, ["c"])] : List (HuddleKey × List String))[handle]? =
        some (sampleKey, [pubkey]) →
      s.relay.rooms.get sampleKey = some handle := by
    intro handle pubkey hentry
    rw [← hrooms, List.getElem?_map] at hentry
    obtain ⟨room, hroom, heq⟩ := Option.map_eq_some_iff.mp hentry
    obtain ⟨hkey, hpeers⟩ := Prod.mk.inj heq
    rw [← hkey]
    refine hone handle room hroom ?_
    intro hnil
    rw [hnil] at hpeers
    cases hpeers
  have hfirst := hmapped 0 "b" rfl
  rw [hmapped 1 "c" rfl] at hfirst
  cases hfirst

end Pkzz.Audio
