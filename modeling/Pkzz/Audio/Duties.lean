import Pkzz.Audio.Leases

/-!
# Who has still to clean up

A connection that has a place in a room gives it up, one that has got a room comes to its last
`cleanup_if_empty`, and one that owns a generation releases it, if they go their whole way. What a
step does with these duties is said here, together with what it does to the rooms and to the entries
of the registry.
-/

namespace Pkzz.Audio

open Pkzz.Core Pkzz.Lib Pkzz.Tunnel

/-- The entry of the registry whose lease is that of the huddle. -/
def HuddleOwnerRegistry.entryFor (o : HuddleOwnerRegistry) (key : HuddleKey) :
    Option HuddleOwnerEntry :=
  (Finmap.lookup key.2 o.entries).filter fun entry => (o.renewers[entry.renewer]?).any fun rn =>
    rn.lease.communityId = key.1

/-- The room a connection is in, and who it is there. -/
def JoinStage.seat : JoinStage → Option (Nat × Uuid)
  | admitted room peerId _ _ | installing room peerId _ _ | watching room peerId _ _ | serving room
      peerId _ _ _ =>
    some (room, peerId)
  | _ => none

/-- A connection has got a room, and has not cleaned up yet. -/
def JoinStage.toClean : JoinStage → Bool
  | obtained _ _ _ | admitted _ _ _ _ | installing _ _ _ _ | watching _ _ _ _ | serving _ _ _ _
      _ | archiving _ _
  | leaving _ => true
  | _ => false

/-- The generation a connection has yet to release. -/
def JoinStage.toRelease : JoinStage → Option Nat
  | admitted _ _ (some (.localOwner generation)) _ | installing _ _ generation _ | watching _ _
      generation _
  | emptied generation => some generation
  | serving _ _ _ ownerGeneration _ | archiving _ ownerGeneration | leaving ownerGeneration =>
      ownerGeneration
  | _ => none

/-- The step calls `cleanup_if_empty`, if it closes the connection. -/
def Connection.cleansUp (conn : Connection) : ConnectionEvent → Bool
  | .refuse failure => failure.cleansUp
  | .leave _ =>
    match conn.stage with
    | .leaving _ => true
    | _ => false
  | _ => false

/-- The generation a connection releases in its last step. -/
def Connection.releases (conn : Connection) : ConnectionEvent → Option Nat
  | .leave _ =>
    match conn.stage with
    | .emptied generation => some generation
    | _ => none
  | _ => none

variable {cfg : Config} {r r' : Relay} {conn : Connection} {st : ControlStream}
    {stage' : Option JoinStage}
  {st' : Option ControlStream} {event : ConnectionEvent} {key k : HuddleKey}
    {m m' : AudioRoomManager}
  {o : HuddleOwnerRegistry} {handle handle' : Nat} {room room' : Room} {p : AudioPeer}
    {peerId : Uuid} {generation : Nat}

theorem toClean_of_seat {stage : JoinStage} {seat : Nat × Uuid} (h : stage.seat = some seat) :
    stage.toClean = true := by
  cases stage <;> first | rfl | cases h

/-! ## Peers of the rooms -/

theorem notMem_removePeer (hp : p ∈ (room.removePeer peerId).peers) : p.id ≠ peerId := by
  rcases Room.removePeer_cases room peerId with ⟨hsame, hnone⟩ | ⟨q, _, hid, hdrop⟩
  · rw [hsame] at hp
    exact hnone p hp
  · rw [hdrop] at hp
    have hne := (List.mem_filter.mp hp).2
    rw [hid] at hne
    simpa using hne

theorem notMem_removePeerAndCheckEnded (hp : p ∈ (room.removePeerAndCheckEnded peerId).1.peers) :
    p.id ≠ peerId := by
  obtain ⟨ended, hroom⟩ := Room.removePeerAndCheckEnded_fst room peerId
  rw [hroom] at hp
  exact notMem_removePeer hp

theorem notMem_removePeers (ids : List Uuid) (hp : p ∈ (room.removePeers ids).peers) :
    p.id ∉ ids := by
  induction ids generalizing room with
  | nil => exact List.not_mem_nil
  | cons peerId ids ih =>
    have hfirst := (Room.thins_removePeers (room.removePeer peerId) ids).peers p hp
    intro hmem
    rcases List.mem_cons.mp hmem with heq | hrest
    · exact notMem_removePeer hfirst heq
    · exact ih hp hrest

/-- Where nobody is admitted, whoever is in a room was in it. -/
theorem peers_effect {actor : Option HuddleKey} (heffect : Effect actor m none m')
    (hroom' : m'.created[handle]? = some room')
    (hp : p ∈ room'.peers) : ∃ room, m.created[handle]? = some room ∧ room.key = room'.key ∧
    p ∈ room.peers := by
  cases heffect with
  | same => exact ⟨room', hroom', rfl, hp⟩
  | @getOrCreate k _ =>
    rcases AudioRoomManager.getOrCreate_cases m k with ⟨_, hsame⟩ | ⟨_, _, hnew⟩
    · rw [hsame] at hroom'
      exact ⟨room', hroom', rfl, hp⟩
    rw [hnew] at hroom'
    dsimp only at hroom'
    rw [List.getElem?_append] at hroom'
    split at hroom'
    · exact ⟨room', hroom', rfl, hp⟩
    · -- nobody is in a new room
      rw [List.mem_singleton.mp (List.mem_of_getElem? hroom')] at hp
      cases hp
  | @thin handle' f hthins =>
    rw [AudioRoomManager.getElem?_update] at hroom'
    split at hroom'
    · obtain ⟨room, hroom, rfl⟩ := Option.map_eq_some_iff.mp hroom'
      exact ⟨room, hroom, (hthins room).key.symm, (hthins room).peers p hp⟩
    · exact ⟨room', hroom', rfl, hp⟩
  | @cleanup k _ =>
    rw [AudioRoomManager.cleanupIfEmpty] at hroom'
    split at hroom' <;> exact ⟨room', hroom', rfl, hp⟩

/-- An admission lets one peer in, by its id. -/
theorem addPeer_entered {pubkey : String} {requestedVersion : Nat}
    (h : m.addPeer handle peerId pubkey requestedVersion = some m') :
    ∃ room room' q, m.created[handle]? = some room ∧
      room.Entered room' q ∧ q.id = peerId ∧ m' = m.update handle fun _ => room' := by
  rw [AudioRoomManager.addPeer] at h
  split at h
  · rename_i room hroom
    split at h
    · rename_i room' peerIndex hok
      exact ⟨room, room', _, hroom, Room.entered_addPeer hok, rfl, (Option.some.inj h).symm⟩
    · cases h
  · cases h

theorem addPeerAtIndex_entered {pubkey : String} {requestedVersion peerIndex : Nat}
    (h : m.addPeerAtIndex handle peerId pubkey requestedVersion peerIndex = some m') :
    ∃ room room' q,
      m.created[handle]? = some room ∧ room.Entered room' q ∧ q.id = peerId ∧
        m' = m.update handle fun _ => room' := by
  rw [AudioRoomManager.addPeerAtIndex] at h
  split at h
  · rename_i room hroom
    split at h
    · rename_i room' hok
      exact ⟨room, room', _, hroom, Room.entered_addPeerAtIndex hok, rfl, (Option.some.inj h).symm⟩
    · cases h
  · cases h

/-- Whoever is in a room after an admission was in it, or was admitted. -/
theorem peers_entered {room₀ room₁ : Room} {q : AudioPeer}
    (hroom₀ : m.created[handle']? = some room₀) (hentered : room₀.Entered room₁ q)
    (hroom' : (m.update handle' fun _ => room₁).created[handle]? = some room')
    (hp : p ∈ room'.peers) :
    (∃ room, m.created[handle]? = some room ∧ room.key = room'.key ∧ p ∈ room.peers) ∨
      (handle' = handle ∧ room'.key = room₀.key ∧ p = q) := by
  rw [AudioRoomManager.getElem?_update] at hroom'
  split at hroom'
  · rename_i heq
    rw [← heq, hroom₀] at hroom'
    obtain rfl : room₁ = room' := Option.some.inj hroom'
    rw [hentered.peers] at hp
    rcases List.mem_append.mp hp with hold | hnew
    · exact .inl ⟨room₀, by rw [← heq]; exact hroom₀, hentered.key.symm, hold⟩
    · exact .inr ⟨heq, hentered.key, List.mem_singleton.mp hnew⟩
  · exact .inl ⟨room', hroom', rfl, hp⟩

/-! ## The map of the rooms -/

/-- A cleanup brings no room into the map, and leaves one under its key only if somebody is in it.
-/
theorem get_cleanup (h : (m.cleanupIfEmpty k).1.get key = some handle) : m.get key = some handle ∧
    (key = k → m.vacant key = false) := by
  rw [AudioRoomManager.cleanupIfEmpty] at h
  split at h
  · change Finmap.lookup key (Finmap.erase k m.rooms) = some handle at h
    rw [Map.lookup_erase_eq] at h
    split at h
    · cases h
    · rename_i hne
      exact ⟨h, fun heq => absurd heq hne⟩
  · rename_i hvacant
    exact ⟨h, fun heq => by rw [heq]; exact Bool.eq_false_iff.mpr hvacant⟩

/-- Somebody is in a room of the map that is not vacant. -/
theorem exists_peer_of_get (hkeyed : m.Keyed) (hget : m.get key = some handle)
    (hvacant : m.vacant key = false) :
    ∃ room p, m.created[handle]? = some room ∧ room.key = key ∧ p ∈ room.peers := by
  obtain ⟨room, hroom, hkey⟩ := hkeyed key handle hget
  rw [AudioRoomManager.vacant, hget, Option.bind_some, hroom, Option.any_some,
    Room.isEmpty] at hvacant
  obtain ⟨p, hp⟩ := List.exists_mem_of_ne_nil room.peers (by simpa using hvacant)
  exact ⟨room, p, hroom, hkey, hp⟩

/-- Another key gets no room. -/
theorem get_getOrCreate (hne : key ≠ k) : (m.getOrCreate k).1.get key = m.get key := by
  rcases AudioRoomManager.getOrCreate_cases m k with ⟨_, hsame⟩ | ⟨_, _, hnew⟩
  · rw [hsame]
  · rw [hnew]
    exact (Map.lookup_insert_eq m.rooms k key m.created.length).trans (if_neg hne)

/-! ## The entries of the registry -/

theorem mem_entryFor {entry : HuddleOwnerEntry} : o.entryFor key = some entry ↔
    Finmap.lookup key.2 o.entries = some entry ∧ ∃ rn, o.renewers[entry.renewer]? = some rn ∧
      rn.lease.communityId = key.1 := by
  rw [HuddleOwnerRegistry.entryFor, Option.filter_eq_some_iff, Option.any_eq_true]
  simp only [decide_eq_true_eq]

variable {entry : HuddleOwnerEntry}

theorem entryFor_spawn (hsound : o.Sound) {lease : SessionLease} {draining cancelled : Bool}
    (h : (o.spawn lease draining cancelled).entryFor key = some entry) :
    o.entryFor key = some entry := by
  obtain ⟨hlookup, rn, hrn, hcommunity⟩ := mem_entryFor.mp h
  obtain ⟨rn₀, hrn₀, _⟩ := hsound key.2 entry hlookup
  rw [HuddleOwnerRegistry.getElem?_spawn hrn₀] at hrn
  exact mem_entryFor.mpr ⟨hlookup, rn₀, hrn₀, by rw [Option.some.inj hrn]; exact hcommunity⟩

theorem entryFor_erase {sessionId : Uuid}
    (h : ({ o with entries := Finmap.erase sessionId o.entries } : HuddleOwnerRegistry).entryFor
      key = some entry) :
    o.entryFor key = some entry := by
  obtain ⟨hlookup, hrenewer⟩ := mem_entryFor.mp h
  dsimp only at hlookup
  rw [Map.lookup_erase_eq] at hlookup
  split at hlookup
  · cases hlookup
  · exact mem_entryFor.mpr ⟨hlookup, hrenewer⟩

/-- An entry that an install brings is of the lease's huddle and generation. -/
theorem entryFor_install (hsound : o.Sound) {sessionId : Uuid} {lease : SessionLease}
    (h : (o.install sessionId lease).1.entryFor key = some entry) :
    o.entryFor key = some entry ∨
      (key = (lease.communityId, sessionId) ∧ entry.generation = lease.generation) := by
  rw [HuddleOwnerRegistry.install] at h
  split at h
  · exact .inl (entryFor_spawn hsound (entryFor_erase h))
  obtain ⟨hlookup, rn, hrn, hcommunity⟩ := mem_entryFor.mp h
  dsimp only at hlookup hrn
  rw [Map.lookup_insert_eq] at hlookup
  split at hlookup
  · rename_i hsession
    rw [← Option.some.inj hlookup] at hrn ⊢
    rw [HuddleOwnerRegistry.getElem?_spawn_last] at hrn
    rw [← Option.some.inj hrn] at hcommunity
    exact .inr ⟨Prod.ext hcommunity.symm hsession, rfl⟩
  · exact .inl (entryFor_spawn hsound (mem_entryFor.mpr ⟨hlookup, rn, hrn, hcommunity⟩))

/-- What is left after a removal was there, and is of another session or another generation. -/
theorem entryFor_removeIf {sessionId : Uuid} {f : Renewer → Renewer}
    (hf : ∀ rn, (f rn).lease = rn.lease)
    (h : (o.removeIf sessionId generation f).entryFor key = some entry) :
    o.entryFor key = some entry ∧ (key.2 = sessionId → entry.generation ≠ generation) := by
  rw [HuddleOwnerRegistry.removeIf] at h
  split at h
  · rename_i removed hremoved
    split at h
    · obtain ⟨hlookup, rn, hrn, hcommunity⟩ := mem_entryFor.mp h
      dsimp only at hlookup hrn
      rw [Map.lookup_erase_eq] at hlookup
      split at hlookup
      · cases hlookup
      rename_i hne
      rw [List.getElem?_modify] at hrn
      obtain ⟨rn₀, hrn₀, hmodified⟩ := Option.map_eq_some_iff.mp hrn
      refine ⟨mem_entryFor.mpr ⟨hlookup, rn₀, hrn₀, ?_⟩, fun heq => absurd heq hne⟩
      rw [← hmodified] at hcommunity
      split at hcommunity
      · rw [← hf rn₀]
        exact hcommunity
      · exact hcommunity
    · rename_i hgeneration
      refine ⟨h, ?_⟩
      intro hsession
      have hlookup := (mem_entryFor.mp h).1
      rw [hsession, hremoved] at hlookup
      cases hlookup
      exact hgeneration
  · rename_i hnone
    refine ⟨h, ?_⟩
    intro hsession
    have hlookup := (mem_entryFor.mp h).1
    rw [hsession, hnone] at hlookup
    cases hlookup

theorem entryFor_set {d : SessionDirectory} {redis redis' : Redis} {rn rn' : Renewer}
    {event : RenewerEvent} {i : Nat}
    (hrn : o.renewers[i]? = some rn) (hstep : rn.step d redis event = some (redis', rn'))
    (h : ({ o with renewers := o.renewers.set i rn' } : HuddleOwnerRegistry).entryFor key =
      some entry) :
    o.entryFor key = some entry := by
  obtain ⟨hlookup, rn₁, hrn₁, hcommunity⟩ := mem_entryFor.mp h
  dsimp only at hlookup hrn₁
  by_cases heq : i = entry.renewer
  · obtain ⟨hlt, _⟩ := List.getElem?_eq_some_iff.mp hrn
    rw [← heq, List.getElem?_set_self hlt] at hrn₁
    rw [← Option.some.inj hrn₁, (renewer_step hstep).lease] at hcommunity
    exact mem_entryFor.mpr ⟨hlookup, rn, by rw [← heq]; exact hrn, hcommunity⟩
  · rw [List.getElem?_set_ne heq] at hrn₁
    exact mem_entryFor.mpr ⟨hlookup, rn₁, hrn₁, hcommunity⟩

/-! ## A connection's step -/

/-- What a step of a connection does to the rooms, to the registry, and to its own duties. -/
inductive Duty (r : Relay) (conn : Connection) (event : ConnectionEvent) (r' : Relay) :
    Option JoinStage → Prop where
  /-- It has none yet. -/
  | idle {stage' : Option JoinStage} (hseat : conn.stage.seat = none)
      (hclean : conn.stage.toClean = false)
      (hrelease : conn.stage.toRelease = none) (hrooms : r'.rooms = r.rooms)
        (howners : r'.owners = r.owners) : Duty r conn event r' stage'
  | obtains {stage : JoinStage} (hseat : conn.stage.seat = none)
      (hrelease : conn.stage.toRelease = none)
      (hclean : stage.toClean = true) (hrooms : r'.rooms = (r.rooms.getOrCreate conn.key).1)
        (howners : r'.owners = r.owners) :
      Duty r conn event r' (some stage)
  | enters {stage : JoinStage} {handle : Nat} {room room' : Room} {q : AudioPeer}
      (hseat : conn.stage.seat = none)
      (hrelease : conn.stage.toRelease = none) (hclean : stage.toClean = true)
        (hroom : r.rooms.created[handle]? = some room)
      (hkey : room.key = conn.key) (hentered : room.Entered room' q)
        (hseat' : stage.seat = some (handle, q.id))
      (hrooms : r'.rooms = r.rooms.update handle fun _ => room') (howners : r'.owners = r.owners) :
        Duty r conn event r' (some stage)
  /-- It keeps its place, and may bring the entry that it will release. -/
  | onward {stage : JoinStage} (hseat : stage.seat = conn.stage.seat)
      (hclean : stage.toClean = true)
      (hrelease : stage.toRelease = conn.stage.toRelease) (hrooms : r'.rooms = r.rooms)
      (howners : ∀ key entry, r'.owners.entryFor key = some entry →
        r.owners.entryFor key = some entry ∨
        (key = conn.key ∧ stage.toRelease = some entry.generation)) :
          Duty r conn event r' (some stage)
  /-- It takes its peer out of the room. -/
  | parts {stage : JoinStage} {handle : Nat} {peerId : Uuid} {f : Room →
      Room} (hseat : conn.stage.seat = some (handle, peerId))
      (hthins : ∀ room : Room, room.Thins (f room)) (hgone : ∀ (room : Room) (p : AudioPeer),
        p ∈ (f room).peers → p.id ≠ peerId)
      (hclean : stage.toClean = true) (hrelease : stage.toRelease = conn.stage.toRelease)
      (hrooms : r'.rooms = r.rooms.update handle f) (howners : r'.owners = r.owners) :
        Duty r conn event r' (some stage)
  | cleans {stage' : Option JoinStage} (hseat : conn.stage.seat = none)
      (hreleases : conn.releases event = none)
      (hrelease : ∀ generation, conn.stage.toRelease = some generation → ∀ stage,
        stage' = some stage → stage.toRelease = some generation)
      (hrooms : r'.rooms = (r.rooms.cleanupIfEmpty conn.key).1) (howners : r'.owners = r.owners) :
        Duty r conn event r' stage'
  /-- It closes and does nothing of what it owes. -/
  | drops (hseat : conn.stage.seat = none) (hcleans : conn.cleansUp event = false)
      (hreleases : conn.releases event = none)
      (hpeers : ∀ (handle : Nat) (room' : Room) (p : AudioPeer),
        r'.rooms.created[handle]? = some room' → p ∈ room'.peers →
        ∃ room : Room, r.rooms.created[handle]? = some room ∧ room.key = room'.key ∧ p ∈ room.peers)
      (hmap : r'.rooms.rooms = r.rooms.rooms) (howners : r'.owners = r.owners) :
        Duty r conn event r' none
  | releases {generation : Nat} (hseat : conn.stage.seat = none)
      (hclean : conn.stage.toClean = false)
      (hrelease : conn.stage.toRelease = some generation) (hrooms : r'.rooms = r.rooms)
      (howners : r'.owners = r.owners.release conn.channelId generation) : Duty r conn event r' none

theorem duty_resolve {now : Int} (hstep : conn.resolve cfg r now = some (r', stage')) :
    Duty r conn (.resolve now) r' stage' := by
  have hrooms := resolve_rooms hstep
  have howners := resolve_owners hstep
  rw [Connection.resolve] at hstep
  split at hstep
  · rename_i hstage
    exact .idle (by rw [hstage]; rfl) (by rw [hstage]; rfl) (by rw [hstage]; rfl) hrooms howners
  · rename_i hstage
    exact .idle (by rw [hstage]; rfl) (by rw [hstage]; rfl) (by rw [hstage]; rfl) hrooms howners
  · rename_i hstage
    exact .idle (by rw [hstage]; rfl) (by rw [hstage]; rfl) (by rw [hstage]; rfl) hrooms howners
  · rename_i hstage
    exact .idle (by rw [hstage]; rfl) (by rw [hstage]; rfl) (by rw [hstage]; rfl) hrooms howners
  · cases hstep

theorem duty_giveUp (hstep : conn.step cfg r .giveUp = some (r', stage')) :
    Duty r conn .giveUp r' stage' := by
  rw [Connection.step] at hstep
  split at hstep
  · rename_i hstage
    cases hstep
    exact .idle (by rw [hstage]; rfl) (by rw [hstage]; rfl) (by rw [hstage]; rfl) rfl rfl
  · rename_i hstage
    cases hstep
    exact .idle (by rw [hstage]; rfl) (by rw [hstage]; rfl) (by rw [hstage]; rfl) rfl rfl
  · rename_i hstage
    cases hstep
    exact .idle (by rw [hstage]; rfl) (by rw [hstage]; rfl) (by rw [hstage]; rfl) rfl rfl
  · rename_i hstage
    cases hstep
    exact .idle (by rw [hstage]; rfl) (by rw [hstage]; rfl) (by rw [hstage]; rfl) rfl rfl
  · cases hstep

/-- A refusal cleans up, but for that of an unsupported version. -/
theorem duty_refuse {failure : PreJoinFailure}
    (hstep : conn.join r (.refuse failure) = some (r', stage')) :
    Duty r conn (.refuse failure) r' stage' := by
  rw [Connection.join] at hstep
  split at hstep
  · rename_i hstage
    have hcleaned : Duty r conn
        (.refuse failure) { r with rooms := (r.rooms.cleanupIfEmpty conn.key).1 } none :=
      .cleans (by rw [hstage]; rfl) rfl (fun _ _ _ hnone => by cases hnone) rfl rfl
    dsimp only at hstep
    split at hstep
    · split at hstep
      · cases hstep
      · cases hstep
        exact .drops (by rw [hstage]; rfl) rfl rfl (fun _ room' _ hroom' hp => ⟨room', hroom',
          rfl, hp⟩) rfl rfl
    · cases hstep
      exact hcleaned
    · cases hstep
      exact hcleaned
    · split at hstep
      · cases hstep
        exact hcleaned
      · cases hstep
    · split at hstep
      · cases hstep
        exact hcleaned
      · cases hstep
  · cases hstep

theorem admission_entered {room : Nat} {pendingRemote : Option JoinOutcome} {ownerIndex : Nat}
    {rooms : AudioRoomManager}
    (h : conn.admission r room pendingRemote peerId ownerIndex = some rooms) : ∃ room₀ room₁ q,
      r.rooms.created[room]? = some room₀ ∧ room₀.Entered room₁ q ∧ q.id = peerId ∧
        rooms = r.rooms.update room fun _ => room₁ := by
  rw [Connection.admission] at h
  split at h
  · exact addPeerAtIndex_entered h
  · exact addPeer_entered h

/-- An admission error returns at once. -/
theorem duty_addPeer {ownerIndex : Nat} (hplaced : conn.Placed r)
    (hstep : conn.join r (.addPeer peerId ownerIndex) = some (r', stage')) :
    Duty r conn (.addPeer peerId ownerIndex) r' stage' := by
  rw [Connection.join] at hstep
  split at hstep
  · rename_i room pendingRemote acquiredLease hstage
    split at hstep
    · split at hstep
      · rename_i rooms hadmission
        cases hstep
        obtain ⟨room₀, room₁, q, hroom₀, hentered, rfl, hrooms⟩ := admission_entered hadmission
        obtain ⟨room₂, hroom₂, hkey⟩ := hplaced.room room (by rw [hstage]; rfl)
        rw [hroom₀] at hroom₂
        rw [← Option.some.inj hroom₂] at hkey
        exact .enters (by rw [hstage]; rfl)
          (by rw [hstage]; rfl) rfl hroom₀ hkey hentered rfl hrooms rfl
      · cases hstep
        exact .drops (by rw [hstage]; rfl) rfl rfl (fun _ room' _ hroom' hp => ⟨room', hroom',
          rfl, hp⟩) rfl rfl
    · cases hstep
  · cases hstep

/-- The only entry that an attachment brings is of the connection's huddle and generation. -/
theorem duty_attach (hsound : r.owners.Sound) (hplaced : conn.Placed r)
    (hagrees : conn.stage.Agrees)
    (hstep : conn.attach r = some (r', stage')) : Duty r conn .attach r' stage' := by
  have hrooms := attach_rooms hstep
  rw [Connection.attach] at hstep
  split at hstep
  · rename_i hstage
    split at hstep
    · rename_i attached hattached
      cases hstep
      refine .onward (by rw [hstage]; rfl) rfl (by rw [hstage]; rfl) hrooms fun key entry hentry =>
        .inl ?_
      rw [HuddleOwnerRegistry.attachSignals] at hattached
      split at hattached
      · cases hattached
        exact entryFor_spawn hsound hentry
      split at hattached
      · cases hattached
        exact entryFor_spawn hsound hentry
      · cases hattached
    · cases hstep
      exact .onward (by rw [hstage]; rfl) rfl (by rw [hstage]; rfl) hrooms fun _ _ => .inl
  · rename_i hstage
    cases hstep
    exact .onward (by rw [hstage]; rfl) rfl (by rw [hstage]; rfl) hrooms fun _ _ => .inl
  · rename_i room peerId pendingRemote acquiredLease hfresh hreused hstage
    cases hstep
    refine .onward (by rw [hstage]; rfl) rfl ?_ hrooms fun _ _ => .inl
    rw [hstage]
    cases pendingRemote with
    | none => rfl
    | some outcome =>
      cases outcome with
      | remoteOwner ownerRuntimeId generation => rfl
      | localOwner generation =>
        -- the two ways of owning come before
        cases acquiredLease with
        | none => exact absurd rfl (hreused generation rfl)
        | some lease => exact absurd rfl (hfresh generation lease rfl)
  · rename_i lease hstage
    cases hstep
    rw [hstage] at hagrees
    refine .onward (by rw [hstage]; rfl) rfl (by rw [hstage]; rfl) hrooms fun key entry hentry => ?_
    rcases entryFor_install hsound hentry with hold | ⟨hkey, hgeneration⟩
    · exact .inl hold
    · refine .inr ⟨?_, ?_⟩
      · rw [hkey, (hplaced.lease lease (by rw [hstage]; rfl)).1]
        rfl
      · rw [hgeneration]
        exact congrArg some hagrees.symm
  · rename_i hstage
    cases hstep
    exact .onward (by rw [hstage]; rfl) rfl (by rw [hstage]; rfl) hrooms fun _ _ => .inl
  · cases hstep

theorem duty_leave {archived : Bool} (hstep : conn.leave r archived = some (r', stage')) :
    Duty r conn (.leave archived) r' stage' := by
  rw [Connection.leave] at hstep
  split at hstep
  · rename_i room peerId remote ownerGeneration signals hstage
    cases hstep
    have hclean : (if (Connection.removal r room peerId remote).2 = true then
        JoinStage.archiving room ownerGeneration
        else .leaving ownerGeneration).toClean = true := by split <;> rfl
    have hrelease : (if (Connection.removal r room peerId remote).2 = true then
        JoinStage.archiving room ownerGeneration
        else .leaving ownerGeneration).toRelease = conn.stage.toRelease := by
      rw [hstage]
      split <;> rfl
    have hseat : conn.stage.seat = some (room, peerId) := by
      rw [hstage]
      rfl
    cases remote with
    | true =>
      exact .parts hseat (fun room => Room.thins_removePeer room peerId)
        (fun _ _ => notMem_removePeer) hclean hrelease rfl rfl
    | false =>
      exact .parts hseat (fun room => Room.thins_removePeerAndCheckEnded room peerId)
        (fun _ _ => notMem_removePeerAndCheckEnded) hclean hrelease rfl rfl
  · rename_i room ownerGeneration hstage
    split at hstep
    · cases hstep
      exact .onward (by rw [hstage]; rfl) rfl (by rw [hstage]; rfl) rfl fun _ _ => .inl
    · cases hstep
      refine .drops (by rw [hstage]; rfl) (by rw [Connection.cleansUp, hstage])
        (by rw [Connection.releases, hstage]) ?_ rfl rfl
      intro handle room' p hroom' hp
      have heffect : Effect none r.rooms none (r.rooms.update room Room.clearEnded) :=
        .thin Room.thins_clearEnded
      exact peers_effect heffect hroom' hp
  · rename_i ownerGeneration hstage
    cases hstep
    refine .cleans (by rw [hstage]; rfl) (by rw [Connection.releases, hstage]) ?_ rfl rfl
    intro generation hrelease stage hnext
    rw [hstage] at hrelease
    have hrelease : ownerGeneration = some generation := hrelease
    rw [hrelease] at hnext
    dsimp only at hnext
    split at hnext
    · cases hnext
      rfl
    · cases hnext
  · rename_i generation hstage
    cases hstep
    exact .releases (by rw [hstage]; rfl) (by rw [hstage]; rfl) (by rw [hstage]; rfl) rfl rfl
  · cases hstep

/-- **Every step of a connection is one of these.** -/
theorem duty_step (hsound : r.owners.Sound) (hplaced : conn.Placed r) (hagrees : conn.stage.Agrees)
    (hstep : conn.step cfg r event = some (r', stage')) : Duty r conn event r' stage' := by
  cases event with
  | resolve now => exact duty_resolve hstep
  | giveUp => exact duty_giveUp hstep
  | getOrCreate =>
    have hstep : conn.join r .getOrCreate = _ := hstep
    rw [Connection.join] at hstep
    split at hstep
    · rename_i hstage
      cases hstep
      exact .obtains (by rw [hstage]; rfl) (by rw [hstage]; rfl) rfl rfl rfl
    · cases hstep
  | refuse failure => exact duty_refuse hstep
  | addPeer peerId ownerIndex => exact duty_addPeer hplaced hstep
  | attach => exact duty_attach hsound hplaced hagrees hstep
  | leave archived => exact duty_leave hstep

/-! ## A stream's step -/

/-- What a step of a stream does to the rooms, and whom it keeps on its list. -/
inductive StreamDuty (r : Relay) (st : ControlStream) (r' : Relay) : StreamEvent →
    Option ControlStream → Prop where
  | closes {event : StreamEvent} {st₁ : ControlStream} (hregistered : st₁.registered =
      st.registered) (hkey : ∀ key, st.key = some key →
        st₁.key = some key) (hrooms : r'.rooms = (st₁.teardown r).rooms) :
        StreamDuty r st r' event none
  | obtains {event : StreamEvent} {next : ControlStream} {key : HuddleKey} (hkey : ∀ k,
      st.key = some k → next.key = some k)
      (hnext : next.key = some key) (hregistered : next.registered = st.registered)
      (hrooms : r'.rooms = (r.rooms.getOrCreate key).1) : StreamDuty r st r' event (some next)
  | stays {event : StreamEvent} {next : ControlStream} (hkey : next.key = st.key)
      (hregistered : next.registered = st.registered)
      (hrooms : r'.rooms = r.rooms) : StreamDuty r st r' event (some next)
  | enters {handle version : Nat} {pubkey : String} {room room' : Room} {q : AudioPeer}
      (hpending : st.pending = some (handle, pubkey, version))
        (hroom : r.rooms.created[handle]? = some room)
      (hentered : room.Entered room' q) (hkey : st.key = some room.key)
      (hrooms : r'.rooms = r.rooms.update handle fun _ => room') :
      StreamDuty r st r' (.fence q.id) (some (st.insert pubkey q.id))
  | drops {pubkey : String} {peerId : Uuid} (hfound : (st.registered.find? fun p => p.1 = pubkey) =
      some (pubkey, peerId))
      (hrooms : r'.rooms = ((st.currentRoom r).map fun room => r.rooms.update room fun room =>
        room.removePeer peerId).getD r.rooms) :
      StreamDuty r st r' (.unregister pubkey)
        (some { st with registered := st.registered.filter fun p => p.1 ≠ pubkey })

/-- **Every step of a stream is one of these.** -/
theorem streamDuty_step {event : StreamEvent} (hplaced : st.Placed r)
    (hstep : st.step r event = some (r', st')) : StreamDuty r st r' event st' := by
  cases event with
  | register communityId pubkey protocolVersion =>
    rw [ControlStream.step] at hstep
    split at hstep
    · cases hstep
    split at hstep
    · cases hstep
      exact .closes rfl (fun _ => id) rfl
    rename_i hsame
    -- a latched community stays what it is
    have hlatched : ∀ key, st.key = some key → (communityId, st.fenced.sessionId) = key := by
      intro key hkey
      obtain ⟨latched, hlatched, rfl⟩ := Option.map_eq_some_iff.mp hkey
      have heq : latched = communityId := by simpa [hlatched] using hsame
      rw [heq]
    dsimp only at hstep
    split at hstep
    · cases hstep
      refine .closes ?_ ?_ rfl
      · rfl
      · exact fun key hkey => congrArg some (hlatched key hkey)
    · cases hstep
      exact .obtains (fun key hkey => congrArg some (hlatched key hkey)) rfl rfl rfl
  | fence peerId =>
    rw [ControlStream.step] at hstep
    split at hstep
    · rename_i room pubkey protocolVersion communityId hpending hcommunity
      split at hstep
      · split at hstep
        · split at hstep
          · rename_i rooms hadd
            cases hstep
            obtain ⟨room₀, room₁, q, hroom₀, hentered, rfl, hrooms⟩ := addPeer_entered hadd
            obtain ⟨key, hkey, room₂, hroom₂, rfl⟩ := hplaced _ hpending
            rw [hroom₀] at hroom₂
            rw [← Option.some.inj hroom₂] at hkey
            exact .enters hpending hroom₀ hentered hkey hrooms
          · cases hstep
            exact .stays rfl rfl rfl
        · cases hstep
          exact .closes rfl (fun _ => id) rfl
        · cases hstep
          exact .stays rfl rfl rfl
      · cases hstep
    · cases hstep
  | unregister pubkey =>
    rw [ControlStream.step] at hstep
    split at hstep
    · cases hstep
    split at hstep
    · rename_i pubkey' peerId hfound
      have hpubkey : pubkey' = pubkey := by simpa using List.find?_some hfound
      rw [hpubkey] at hfound
      dsimp only at hstep
      split at hstep
      · rename_i room hcurrent
        cases hstep
        refine .drops hfound ?_
        have hcurrent : st.currentRoom r = some room := hcurrent
        rw [hcurrent]
        rfl
      · rename_i hcurrent
        cases hstep
        refine .drops hfound ?_
        have hcurrent : st.currentRoom r = none := hcurrent
        rw [hcurrent]
        rfl
    · cases hstep
      exact .stays rfl rfl rfl
  | close =>
    cases hstep
    exact .closes rfl (fun _ => id) rfl

/-- After a teardown nobody on the list is in the stream's room. -/
theorem peers_teardown (hroom' : (st.teardown r).rooms.created[handle]? = some room')
    (hp : p ∈ room'.peers) :
    ∃ room, r.rooms.created[handle]? = some room ∧ room.key = room'.key ∧ p ∈ room.peers ∧
      (st.currentRoom r = some handle → p.id ∉ st.registered.map Prod.snd) := by
  rw [ControlStream.teardown] at hroom'
  split at hroom'
  · rename_i current hcurrent
    rw [AudioRoomManager.getElem?_update] at hroom'
    split at hroom'
    · obtain ⟨room, hroom, rfl⟩ := Option.map_eq_some_iff.mp hroom'
      have hthins := Room.thins_removePeers room (st.registered.map Prod.snd)
      exact ⟨room, hroom, hthins.key.symm, hthins.peers p hp, fun _ => notMem_removePeers _ hp⟩
    · rename_i hne
      refine ⟨room', hroom', rfl, hp, fun heq => ?_⟩
      rw [hcurrent] at heq
      exact absurd (Option.some.inj heq) hne
  · rename_i hnone
    refine ⟨room', hroom', rfl, hp, fun heq => ?_⟩
    rw [hnone] at heq
    cases heq

end Pkzz.Audio
