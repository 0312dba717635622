import Pkzz.Audio.OneRoom

/-!
# What connections and streams hold

A connection holds a room of its own key and, once it has acquired it, a lease of its own key, and a
stream waits at a room of its own key. The entries of the registry have renewers of their session.
-/

namespace Pkzz.Audio

open Pkzz.Core Pkzz.Lib Pkzz.Tunnel

/-- The room a connection holds. -/
def JoinStage.room : JoinStage → Option Nat
  | obtained room _ _ | admitted room _ _ _ | installing room _ _ _ | watching room _ _ _ | serving
      room _ _ _ _
  | archiving room _ => some room
  | _ => none

/-- The lease a connection has acquired and not attached yet. -/
def JoinStage.lease : JoinStage → Option SessionLease
  | resolved _ acquiredLease | obtained _ _ acquiredLease | admitted _ _ _ acquiredLease =>
      acquiredLease
  | installing _ _ _ lease => some lease
  | _ => none

/-- There is a room of the key behind the handle. -/
def AudioRoomManager.HasRoom (m : AudioRoomManager) (handle : Nat) (key : HuddleKey) : Prop :=
  ∃ room, m.created[handle]? = some room ∧ room.key = key

structure Connection.Placed (r : Relay) (conn : Connection) : Prop where
  room : ∀ handle ∈ conn.stage.room, r.rooms.HasRoom handle conn.key
  lease : ∀ lease ∈ conn.stage.lease, lease.communityId = conn.communityId ∧
    lease.sessionId = conn.channelId

/-- A stream waits at a room of its key. -/
def ControlStream.Placed (r : Relay) (st : ControlStream) : Prop :=
  ∀ p ∈ st.pending, ∃ key, st.key = some key ∧ r.rooms.HasRoom p.1 key

structure Placed (s : Pod) : Prop where
  keyed : s.relay.rooms.Keyed
  owners : s.relay.owners.Sound
  connections : ∀ c conn, Finmap.lookup c s.connections = some conn → conn.Placed s.relay
  streams : ∀ st stream, Finmap.lookup st s.streams = some stream → stream.Placed s.relay

variable {cfg : Config} {r r' : Relay} {conn : Connection} {st : ControlStream} {stage : JoinStage}
  {stage' : Option JoinStage} {st' : Option ControlStream} {s s' : Pod} {a : Event}

/-! ### Rooms stay behind their handles -/

theorem hasRoom_effect {m m' : AudioRoomManager} {key : Option HuddleKey} {entered : Option Nat}
    (heffect : Effect key m entered m')
    {handle : Nat} {k : HuddleKey} (h : m.HasRoom handle k) : m'.HasRoom handle k := by
  obtain ⟨room, hroom, hkey⟩ := h
  cases heffect with
  | same => exact ⟨room, hroom, hkey⟩
  | @getOrCreate k' _ =>
    rcases AudioRoomManager.getOrCreate_cases m k' with ⟨_, hsame⟩ | ⟨_, _, hnew⟩
    · rw [hsame]
      exact ⟨room, hroom, hkey⟩
    · obtain ⟨hlt, _⟩ := List.getElem?_eq_some_iff.mp hroom
      rw [hnew]
      exact ⟨room, by dsimp only; rw [List.getElem?_append_left hlt, hroom], hkey⟩
  | enter henters =>
    rename_i entered
    obtain ⟨room₀, room', p, hroom₀, hentered, rfl⟩ := henters
    by_cases heq : entered = handle
    · rw [heq, hroom] at hroom₀
      cases hroom₀
      exact ⟨room', by rw [AudioRoomManager.getElem?_update, if_pos heq, hroom]; rfl,
    hentered.key.trans hkey⟩
    · exact ⟨room, by rw [AudioRoomManager.getElem?_update, if_neg heq, hroom], hkey⟩
  | thin hthins =>
    rename_i handle' f
    by_cases heq : handle' = handle
    · exact ⟨f room, by rw [AudioRoomManager.getElem?_update, if_pos heq, hroom]; rfl,
      (hthins room).key.trans hkey⟩
    · exact ⟨room, by rw [AudioRoomManager.getElem?_update, if_neg heq, hroom], hkey⟩
  | cleanup _ =>
    refine ⟨room, ?_, hkey⟩
    rw [AudioRoomManager.cleanupIfEmpty]
    split <;> exact hroom

theorem hasRoom_getOrCreate {m : AudioRoomManager} (h : m.Keyed) (k : HuddleKey) :
    (m.getOrCreate k).1.HasRoom (m.getOrCreate k).2 k := by
  rcases AudioRoomManager.getOrCreate_cases m k with ⟨hsome, hsame⟩ | ⟨_, hlast, hnew⟩
  · rw [hsame]
    exact h k _ hsome
  rw [hlast, hnew]
  refine ⟨Room.new k.1 k.2, ?_, rfl⟩
  dsimp only
  rw [List.getElem?_append_right le_rfl, Nat.sub_self]
  rfl

/-! ### Connections -/

theorem acquired_session {d : SessionDirectory} {redis : Redis} {now : Int}
    {communityId : CommunityId} {sessionId : Uuid}
    {owner : RuntimeId} {profile : Profile} {lease : SessionLease}
    (h : (d.acquire redis now communityId sessionId owner profile).2 = .ok (.acquired lease)) :
    lease.communityId = communityId ∧ lease.sessionId = sessionId := by
  have hmem : lease ∈ handedOut (d.acquire redis now communityId sessionId owner profile).2 := by
    rw [h]
    exact List.mem_singleton_self _
  rcases @acquire_cases d redis now communityId sessionId owner profile with ⟨_, hnone⟩ |
    ⟨_, _, _, _, _, _, hhanded⟩
  · rw [hnone] at hmem
    cases hmem
  · exact parseLease_session (hhanded lease hmem).2

theorem found_room (lease : SessionLease) : (cfg.found lease).room = none := by
  rw [Config.found]
  split <;> rfl

theorem found_lease (lease : SessionLease) : (cfg.found lease).lease = none := by
  rw [Config.found]
  split <;> rfl

/-- A stage that holds nothing is well placed. -/
theorem placed_of_none (hroom : stage.room = none) (hlease : stage.lease = none) :
    ({ conn with stage } : Connection).Placed r := by
  refine ⟨?_, ?_⟩
  · intro handle hmem
    rw [hroom] at hmem
    cases hmem
  · intro lease hmem
    rw [hlease] at hmem
    cases hmem

/-- The next stage holds what this one does. -/
theorem placed_of_le (h : conn.Placed r)
    (hroom : ∀ handle ∈ stage.room, conn.stage.room = some handle)
    (hlease : ∀ lease ∈ stage.lease, conn.stage.lease = some lease) :
    ({ conn with stage } : Connection).Placed r :=
  ⟨fun handle hmem => h.room handle (hroom handle hmem), fun lease hmem =>
    h.lease lease (hlease lease hmem)⟩

theorem placed_rooms (h : conn.Placed r)
    (hrooms : ∀ handle k, r.rooms.HasRoom handle k → r'.rooms.HasRoom handle k) : conn.Placed r' :=
  ⟨fun handle hmem => hrooms handle _ (h.room handle hmem), h.lease⟩

theorem resolve_placed {now : Int} (hstep : conn.resolve cfg r now = some (r', some stage)) :
    ({ conn with stage } : Connection).Placed r' := by
  rw [Connection.resolve] at hstep
  split at hstep
  · split at hstep
    · cases hstep
      exact placed_of_none (found_room _) (found_lease _)
    · cases hstep
      exact placed_of_none rfl rfl
    · cases hstep
  · dsimp only at hstep
    split at hstep
    · rename_i lease hacquired
      cases hstep
      refine ⟨?_, ?_⟩
      · intro handle hmem
        cases hmem
      · intro lease' hmem
        cases hmem
        exact acquired_session hacquired
    · cases hstep
      exact placed_of_none (found_room _) (found_lease _)
    · cases hstep
  · split at hstep <;> cases hstep <;> exact placed_of_none rfl rfl
  · split at hstep
    · cases hstep
      exact placed_of_none rfl rfl
    · cases hstep
  · cases hstep

theorem attach_placed (h : conn.Placed r) (hstep : conn.attach r = some (r', some stage)) :
    ({ conn with stage } : Connection).Placed r' := by
  have hsame : ∀ handle k, r.rooms.HasRoom handle k → r'.rooms.HasRoom handle k := by
    intro handle k hroom
    rw [attach_rooms hstep]
    exact hroom
  refine placed_rooms ?_ hsame
  rw [Connection.attach] at hstep
  split at hstep
  · rename_i hstage
    split at hstep
    · cases hstep
      exact placed_of_le h (by rw [hstage]; exact fun _ => id) (fun _ hroom => by cases hroom)
    · cases hstep
      exact placed_of_le h (by rw [hstage]; exact fun _ => id) (by rw [hstage]; exact fun _ => id)
  · rename_i hstage
    cases hstep
    exact placed_of_le h (by rw [hstage]; exact fun _ => id) (fun _ hroom => by cases hroom)
  · rename_i hstage
    cases hstep
    exact placed_of_le h (by rw [hstage]; exact fun _ => id) (fun _ hroom => by cases hroom)
  · rename_i hstage
    cases hstep
    exact placed_of_le h (by rw [hstage]; exact fun _ => id) (fun _ hroom => by cases hroom)
  · rename_i hstage
    cases hstep
    exact placed_of_le h (by rw [hstage]; exact fun _ => id) (fun _ hroom => by cases hroom)
  · cases hstep

variable {event : ConnectionEvent}

theorem join_placed (hkeyed : r.rooms.Keyed) (h : conn.Placed r)
    (hstep : conn.join r event = some (r', some stage)) :
    ({ conn with stage } : Connection).Placed r' := by
  have hrooms : ∀ handle k, r.rooms.HasRoom handle k → r'.rooms.HasRoom handle k :=
    fun handle k hroom => hasRoom_effect (join_rooms hstep) hroom
  cases event with
  | getOrCreate =>
    rw [Connection.join] at hstep
    split at hstep
    · rename_i hstage
      cases hstep
      refine ⟨?_, ?_⟩
      · intro handle hmem
        cases hmem
        exact hasRoom_getOrCreate hkeyed conn.key
      · intro lease hmem
        exact h.lease lease (by rw [hstage]; exact hmem)
    · cases hstep
  | refuse failure =>
    rw [Connection.join] at hstep
    split at hstep
    · dsimp only at hstep
      split at hstep
      · split at hstep <;> cases hstep
      · cases hstep
      · cases hstep
      · split at hstep <;> cases hstep
      · split at hstep <;> cases hstep
    · cases hstep
  | addPeer peerId ownerIndex =>
    refine placed_rooms (placed_of_le h ?_ ?_) hrooms
    all_goals
      rw [Connection.join] at hstep
      split at hstep
      · rename_i hstage
        split at hstep
        · split at hstep
          · cases hstep
            rw [hstage]
            exact fun _ => id
          · cases hstep
        · cases hstep
      · cases hstep
  | resolve now => cases hstep
  | giveUp => cases hstep
  | attach => cases hstep
  | leave archived => cases hstep

theorem leave_placed {archived : Bool} (h : conn.Placed r)
    (hstep : conn.leave r archived = some (r', some stage)) :
    ({ conn with stage } : Connection).Placed r' := by
  have hrooms : ∀ handle k, r.rooms.HasRoom handle k → r'.rooms.HasRoom handle k :=
    fun handle k hroom => hasRoom_effect (leave_rooms hstep) hroom
  refine placed_rooms ?_ hrooms
  rw [Connection.leave] at hstep
  split at hstep
  · rename_i hstage
    cases hstep
    split
    · exact placed_of_le h (by rw [hstage]; exact fun _ => id) (fun _ hroom => by cases hroom)
    · exact placed_of_none rfl rfl
  · split at hstep
    · cases hstep
      exact placed_of_none rfl rfl
    · cases hstep
  · simp only [Option.some.injEq, Prod.mk.injEq] at hstep
    obtain ⟨_, hstage'⟩ := hstep
    split at hstage'
    · split at hstage'
      · cases hstage'
        exact placed_of_none rfl rfl
      · cases hstage'
    · cases hstage'
  · cases hstep
  · cases hstep

theorem connection_placed (hkeyed : r.rooms.Keyed) (h : conn.Placed r)
    (hstep : conn.step cfg r event = some (r', some stage)) :
    ({ conn with stage } : Connection).Placed r' := by
  cases event with
  | resolve now => exact resolve_placed hstep
  | giveUp =>
    rw [Connection.step] at hstep
    split at hstep <;> cases hstep
  | attach => exact attach_placed h hstep
  | leave archived => exact leave_placed h hstep
  | getOrCreate => exact join_placed hkeyed h (show conn.join r .getOrCreate = _ from hstep)
  | refuse failure => exact join_placed hkeyed h (show conn.join r (.refuse failure) = _ from hstep)
  | addPeer peerId ownerIndex =>
      exact join_placed hkeyed h (show conn.join r (.addPeer peerId ownerIndex) = _ from hstep)

/-! ### Streams -/

theorem stream_placed {event : StreamEvent} {next : ControlStream} (hkeyed : r.rooms.Keyed)
    (hstep : st.step r event = some (r', some next)) : next.Placed r' := by
  cases event with
  | register communityId pubkey protocolVersion =>
    rw [ControlStream.step] at hstep
    split at hstep
    · cases hstep
    split at hstep
    · cases hstep
    dsimp only at hstep
    split at hstep
    · cases hstep
    cases hstep
    intro p hp
    cases hp
    exact ⟨_, rfl, hasRoom_getOrCreate hkeyed _⟩
  | fence peerId =>
    have hnone : next.pending = none := by
      rw [ControlStream.step] at hstep
      split at hstep
      · split at hstep
        · split at hstep
          · split at hstep <;> cases hstep <;> rfl
          · cases hstep
          · cases hstep
            rfl
        · cases hstep
      · cases hstep
    intro p hp
    rw [hnone] at hp
    cases hp
  | unregister pubkey =>
    have hnone : next.pending = none := by
      rw [ControlStream.step] at hstep
      split at hstep
      · cases hstep
      rename_i hpending
      have hpending : st.pending = none := by simpa using hpending
      split at hstep
      · dsimp only at hstep
        split at hstep <;> cases hstep <;> exact hpending
      · cases hstep
        exact hpending
    intro p hp
    rw [hnone] at hp
    cases hp
  | close => cases hstep

/-! ### Owners -/

theorem attach_owners (h : r.owners.Sound) (hplaced : conn.Placed r)
    (hstep : conn.attach r = some (r', stage')) : r'.owners.Sound := by
  rw [Connection.attach] at hstep
  split at hstep
  · split at hstep
    · rename_i attached hattached
      cases hstep
      rw [HuddleOwnerRegistry.attachSignals] at hattached
      split at hattached
      · cases hattached
        exact HuddleOwnerRegistry.sound_spawn h true true
      split at hattached
      · cases hattached
        exact HuddleOwnerRegistry.sound_spawn h false true
      · cases hattached
    · cases hstep
      exact h
  · cases hstep
    exact h
  · cases hstep
    exact h
  · rename_i hstage
    cases hstep
    refine HuddleOwnerRegistry.sound_install h (hplaced.lease _ ?_).2
    rw [hstage]
    rfl
  · cases hstep
    exact h
  · cases hstep

theorem resolve_owners {now : Int} (hstep : conn.resolve cfg r now = some (r', stage')) :
    r'.owners = r.owners := by
  rw [Connection.resolve] at hstep
  split at hstep
  · split at hstep <;> cases hstep <;> rfl
  · dsimp only at hstep
    split at hstep <;> cases hstep <;> rfl
  · split at hstep <;> cases hstep <;> rfl
  · split at hstep <;> cases hstep <;> rfl
  · cases hstep

theorem join_owners (hstep : conn.join r event = some (r', stage')) : r'.owners = r.owners := by
  cases event with
  | getOrCreate =>
    rw [Connection.join] at hstep
    split at hstep <;> cases hstep
    rfl
  | refuse failure =>
    rw [Connection.join] at hstep
    split at hstep
    · dsimp only at hstep
      split at hstep
      · split at hstep <;> cases hstep
        rfl
      · cases hstep
        rfl
      · cases hstep
        rfl
      · split at hstep <;> cases hstep
        rfl
      · split at hstep <;> cases hstep
        rfl
    · cases hstep
  | addPeer peerId ownerIndex =>
    rw [Connection.join] at hstep
    split at hstep
    · split at hstep
      · split at hstep <;> cases hstep <;> rfl
      · cases hstep
    · cases hstep
  | resolve now => cases hstep
  | giveUp => cases hstep
  | attach => cases hstep
  | leave archived => cases hstep

/-- Only the last step of a cleanup is one on the registry. -/
theorem leave_owners {archived : Bool} (hstep : conn.leave r archived = some (r', stage')) :
    r'.owners = r.owners ∨ ∃ generation, conn.stage = .emptied generation ∧ stage' = none ∧
      r' = { r with owners := r.owners.release conn.channelId generation } := by
  rw [Connection.leave] at hstep
  split at hstep
  · cases hstep
    exact .inl rfl
  · split at hstep <;> cases hstep <;> exact .inl rfl
  · cases hstep
    exact .inl rfl
  · rename_i generation hstage
    cases hstep
    exact .inr ⟨generation, hstage, rfl, rfl⟩
  · cases hstep

theorem connection_owners (h : r.owners.Sound) (hplaced : conn.Placed r)
    (hstep : conn.step cfg r event = some (r', stage')) : r'.owners.Sound := by
  cases event with
  | resolve now =>
    rw [resolve_owners hstep]
    exact h
  | giveUp =>
    rw [Connection.step] at hstep
    split at hstep <;> cases hstep <;> exact h
  | attach => exact attach_owners h hplaced hstep
  | leave archived =>
    rcases leave_owners hstep with hsame | ⟨generation, _, _, rfl⟩
    · rw [hsame]
      exact h
    · exact HuddleOwnerRegistry.sound_removeIf h _ _ _
  | getOrCreate =>
    rw [join_owners (show conn.join r .getOrCreate = _ from hstep)]
    exact h
  | refuse failure =>
    rw [join_owners (show conn.join r (.refuse failure) = _ from hstep)]
    exact h
  | addPeer peerId ownerIndex =>
    rw [join_owners (show conn.join r (.addPeer peerId ownerIndex) = _ from hstep)]
    exact h

theorem teardown_owners (r : Relay) (st : ControlStream) : (st.teardown r).owners = r.owners := by
  rw [ControlStream.teardown]
  split <;> rfl

theorem stream_owners {event : StreamEvent} (hstep : st.step r event = some (r', st')) :
    r'.owners = r.owners := by
  cases event with
  | register communityId pubkey protocolVersion =>
    rw [ControlStream.step] at hstep
    split at hstep
    · cases hstep
    split at hstep
    · cases hstep
      exact teardown_owners r st
    dsimp only at hstep
    split at hstep
    · cases hstep
      exact teardown_owners r _
    · cases hstep
      rfl
  | fence peerId =>
    rw [ControlStream.step] at hstep
    split at hstep
    · split at hstep
      · split at hstep
        · split at hstep <;> cases hstep <;> rfl
        · cases hstep
          exact teardown_owners r st
        · cases hstep
          rfl
      · cases hstep
    · cases hstep
  | unregister pubkey =>
    rw [ControlStream.step] at hstep
    split at hstep
    · cases hstep
    split at hstep
    · dsimp only at hstep
      split at hstep <;> cases hstep <;> rfl
    · cases hstep
      rfl
  | close =>
    cases hstep
    exact teardown_owners r st

/-! ### The pod -/

theorem lookup_put {V : Type} (m : Map Nat V) (n n' : Nat) (v : Option V) :
    Finmap.lookup n' (put m n v) = if n' = n then v else Finmap.lookup n' m := by
  cases v with
  | none => exact Map.lookup_erase_eq m n n'
  | some v => exact Map.lookup_insert_eq m n n' v

theorem placed_start : Placed .start := by
  refine ⟨AudioRoomManager.keyed_new, HuddleOwnerRegistry.sound_new, ?_, ?_⟩
  · intro c conn h
    cases h
  · intro st stream h
    cases h

/-- **Every step keeps all in its place.** -/
theorem placed_step (h : Placed s) (hstep : (pod cfg).step s a = some s') : Placed s' := by
  obtain ⟨_, heffect⟩ := pod_rooms hstep
  have hkeyed := keyed_effect h.keyed heffect
  have hrooms : ∀ handle k, s.relay.rooms.HasRoom handle k → s'.relay.rooms.HasRoom handle k :=
    fun handle k hroom => hasRoom_effect heffect hroom
  -- a step may close rooms but moves nobody to another one
  have hconnections : ∀ c conn, Finmap.lookup c s.connections = some conn → conn.Placed s'.relay :=
    fun c conn hconn => placed_rooms (h.connections c conn hconn) hrooms
  have hstreams : ∀ st stream, Finmap.lookup st s.streams = some stream →
      stream.Placed s'.relay := by
    intro st stream hstream p hp
    obtain ⟨key, hkey, hroom⟩ := h.streams st stream hstream p hp
    exact ⟨key, hkey, hrooms _ _ hroom⟩
  cases a with
  | connect c communityId channelId pubkey protocolVersion =>
    rw [pod] at hstep
    dsimp only at hstep
    split at hstep
    · cases hstep
    cases hstep
    refine ⟨hkeyed, h.owners, ?_, hstreams⟩
    intro c' conn hconn
    rw [Map.lookup_insert_eq] at hconn
    split at hconn
    · cases hconn
      split <;> exact ⟨fun _ hroom => (by cases hroom), fun _ hlease => by cases hlease⟩
    · exact hconnections c' conn hconn
  | connection c event =>
    rw [pod] at hstep
    dsimp only at hstep
    split at hstep
    · rename_i conn hconn
      obtain ⟨⟨r', stage'⟩, hstage, rfl⟩ := Option.map_eq_some_iff.mp hstep
      refine ⟨hkeyed, connection_owners h.owners (h.connections c conn hconn) hstage, ?_, hstreams⟩
      intro c' conn' hconn'
      dsimp only at hconn'
      rw [lookup_put] at hconn'
      split at hconn'
      · obtain ⟨stage, rfl, rfl⟩ := Option.map_eq_some_iff.mp hconn'
        exact connection_placed h.keyed (h.connections c conn hconn) hstage
      · exact hconnections c' conn' hconn'
    · cases hstep
  | accept st fenced =>
    rw [pod] at hstep
    dsimp only at hstep
    split at hstep
    · cases hstep
    cases hstep
    refine ⟨hkeyed, h.owners, hconnections, ?_⟩
    intro st' stream hstream
    rw [Map.lookup_insert_eq] at hstream
    split at hstream
    · cases hstream
      intro p hp
      cases hp
    · exact hstreams st' stream hstream
  | stream st event =>
    rw [pod] at hstep
    dsimp only at hstep
    split at hstep
    · rename_i stream hstream
      obtain ⟨⟨r', next⟩, hnext, rfl⟩ := Option.map_eq_some_iff.mp hstep
      refine ⟨hkeyed, by rw [stream_owners hnext]; exact h.owners, hconnections, ?_⟩
      intro st' stream' hstream'
      dsimp only at hstream'
      rw [lookup_put] at hstream'
      split at hstream'
      · cases hstream'
        exact stream_placed h.keyed hnext
      · exact hstreams st' stream' hstream'
    · cases hstep
  | renewer i event =>
    rw [pod] at hstep
    dsimp only at hstep
    split at hstep
    · rename_i renewer hrenewer
      obtain ⟨⟨redis, renewer'⟩, hrenewer', rfl⟩ := Option.map_eq_some_iff.mp hstep
      exact ⟨hkeyed, HuddleOwnerRegistry.sound_set h.owners hrenewer hrenewer',
        hconnections, hstreams⟩
    · cases hstep
  | drain sessionId generation =>
    cases hstep
    exact ⟨hkeyed, HuddleOwnerRegistry.sound_removeIf h.owners _ _ _, hconnections, hstreams⟩
  | startDrain =>
    cases hstep
    exact ⟨hkeyed, h.owners, hconnections, hstreams⟩
  | world call =>
    obtain ⟨next, _, rfl⟩ := Option.map_eq_some_iff.mp hstep
    exact ⟨hkeyed, h.owners, hconnections, hstreams⟩

end Pkzz.Audio
