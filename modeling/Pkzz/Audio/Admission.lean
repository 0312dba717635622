import Pkzz.Audio.Roster

/-!
# Admission to a room

Both allocators of peer indices, the room's own and the owner's of another pod, work on one free
list and one high-water mark. In every run the indices in use and the free ones are apart, a room
has one protocol version, and each change of the roster is one revision with one delta. Without
indices from an owner no seat is ever lost: the indices given out so far are in use or free.
-/

namespace Pkzz.Audio

open Pkzz.Core Pkzz.Lib

/-- `mark_ended`: whether the room is empty. -/
def Room.markEnded (room : Room) : Room × Bool :=
  ({ room with guard := { room.guard with ended := true } }, room.isEmpty)

inductive AdmissionCall where
  | call (c : RoomCall)
  | markEnded

/-- A room, with the versions of all peers that were ever admitted. -/
structure RoomHistory where
  room : Room
  admitted : List Nat

namespace RoomHistory

def init (communityId : CommunityId) (channelId : Uuid) : RoomHistory :=
  ⟨.new communityId channelId, []⟩

/-- The version of the peer that a call admits. -/
def admittedBy (room : Room) : RoomCall → List Nat
  | .join peerId pubkey version =>
    match room.addPeer peerId pubkey version with
    | .ok _ => [version]
    | .error _ => []
  | .joinAt peerId pubkey version peerIndex =>
    match room.addPeerAtIndex peerId pubkey version peerIndex with
    | .ok _ => [version]
    | .error _ => []
  | _ => []

/-- Whether a call asks for a seat and is refused. -/
def Refused (room : Room) : AdmissionCall → Prop
  | .call (.join peerId pubkey version) => ∃ e, room.addPeer peerId pubkey version = .error e
  | .call (.joinAt peerId pubkey version peerIndex) =>
      ∃ e, room.addPeerAtIndex peerId pubkey version peerIndex = .error e
  | _ => False

def step (r : RoomHistory) : AdmissionCall → Option RoomHistory
  | .call c => (c.apply r.room).map fun room => ⟨room, r.admitted ++ admittedBy r.room c⟩
  | .markEnded => some { r with room := r.room.markEnded.1 }

def machine : Machine RoomHistory AdmissionCall := ⟨step⟩

/-- No index comes from an owner elsewhere. -/
def OwnIndex (_ : RoomHistory) : AdmissionCall → Prop
  | .call (.joinAt ..) => False
  | _ => True

/-- What holds of a room at any time. -/
structure Sound (r : RoomHistory) : Prop where
  distinct : (r.room.peers.map AudioPeer.peerIndex).Nodup
  free : r.room.guard.free.Nodup
  apart : ∀ p ∈ r.room.peers, p.peerIndex ∉ r.room.guard.free
  cap : r.room.peers.length ≤ maxPeersPerRoom
  oneVersion : ∀ v ∈ r.admitted, ∀ w ∈ r.admitted, v = w
  revision : r.room.guard.rosterRevision = r.room.published.length % 2 ^ 64
  roster : rosterMap (r.room.peers.map AudioPeer.entry) = replay r.room.published

/-- What a call does to the roster: nothing, or one change with the next revision, a `u64`. -/
inductive RosterStep (room room' : Room) : Prop where
  | same (peers : room'.peers = room.peers) (revision : room'.guard.rosterRevision =
      room.guard.rosterRevision) (published : room'.published = room.published)
  | joined (p : AudioPeer) (peers : room'.peers = room.peers ++ [p])
      (revision : room'.guard.rosterRevision = (room.guard.rosterRevision + 1) % 2 ^ 64)
      (published : room'.published = room.published ++ [⟨room'.guard.rosterRevision,
        some p.entry, none⟩])
  | left (p : AudioPeer) (mem : p ∈ room.peers)
      (peers : room'.peers = room.peers.filter fun q => q.id ≠ p.id)
      (revision : room'.guard.rosterRevision = (room.guard.rosterRevision + 1) % 2 ^ 64)
      (published : room'.published = room.published ++ [⟨room'.guard.rosterRevision, none,
        some p.entry⟩])

/-- What holds of a call. -/
structure Accounts (r : RoomHistory) (call : AdmissionCall) (r' : RoomHistory) : Prop where
  roster : RosterStep r.room r'.room
  refused : Refused r.room call → r' = r
  ended : r.room.guard.ended = true → r'.admitted = r.admitted ∧ r'.room.peers ⊆ r.room.peers

variable {r r' : RoomHistory} {room room' : Room} {peerId : Uuid} {pubkey : String}
    {version peerIndex : Nat}

/-! ## Seats and versions -/

/-- The cap, and the pin: the version of everyone who was admitted. -/
structure Pinned (r : RoomHistory) : Prop where
  cap : r.room.peers.length ≤ maxPeersPerRoom
  version : ∀ v ∈ r.admitted, r.room.guard.pinnedVersion = some v

/-- Whoever is admitted has the pinned version, and there was room. -/
theorem pin_of_versionError {g : AdmissionGuard} (h : g.versionError version = none) :
    (g.pin version).pinnedVersion = some version ∧ ∀ v, g.pinnedVersion = some v → v = version := by
  unfold AdmissionGuard.versionError at h
  unfold AdmissionGuard.pin
  cases hp : g.pinnedVersion with
  | none =>
    refine ⟨rfl, ?_⟩
    intro v hv
    cases hv
  | some pinned =>
    rw [hp] at h
    dsimp only at h
    by_cases hne : pinned ≠ version
    · rw [if_pos hne] at h
      cases h
    have heq : pinned = version := not_not.mp hne
    refine ⟨by rw [heq]; rfl, ?_⟩
    intro v hv
    rw [← Option.some.inj hv, heq]

theorem alloc_keeps {g g' : AdmissionGuard} {idx : Nat} (h : g.alloc = some (idx, g')) :
    g'.pinnedVersion = g.pinnedVersion ∧ g'.rosterRevision = g.rosterRevision := by
  unfold AdmissionGuard.alloc at h
  split at h
  · cases h
    exact ⟨rfl, rfl⟩
  split at h
  · cases h
  · cases h
    exact ⟨rfl, rfl⟩

/-- An admission below the cap, with the pinned version. -/
structure Admits (room room' : Room) (version : Nat) : Prop where
  notEnded : room.guard.ended = false
  below : room.peers.length < maxPeersPerRoom
  one : ∃ p, room'.peers = room.peers ++ [p]
    ∧ room'.guard.rosterRevision = (room.guard.rosterRevision + 1) % 2 ^ 64
    ∧ room'.published = room.published ++ [⟨room'.guard.rosterRevision, some p.entry, none⟩]
  pinned : room'.guard.pinnedVersion = some version
  agrees : ∀ v, room.guard.pinnedVersion = some v → v = version

theorem admits_addPeer (h : room.addPeer peerId pubkey version = .ok (room', peerIndex)) :
    Admits room room' version := by
  rw [Room.addPeer] at h
  split at h
  · cases h
  rename_i hended
  split at h
  · cases h
  rename_i hcap
  split at h
  · cases h
  rename_i hversion
  split at h
  · cases h
  rename_i idx guard halloc
  cases h
  obtain ⟨hpinned, hrev⟩ := alloc_keeps halloc
  have hguard : guard.versionError version = none := by
    unfold AdmissionGuard.versionError at hversion ⊢
    rw [hpinned]
    exact hversion
  obtain ⟨hpin, _⟩ := pin_of_versionError hguard
  obtain ⟨_, hagrees⟩ := pin_of_versionError hversion
  refine ⟨by simpa using hended, by omega, ⟨_, rfl, ?_, rfl⟩, hpin, hagrees⟩
  show (guard.rosterRevision + 1) % 2 ^ 64 = (room.guard.rosterRevision + 1) % 2 ^ 64
  rw [hrev]

theorem admits_addPeerAtIndex
    (h : room.addPeerAtIndex peerId pubkey version peerIndex = .ok room') :
    Admits room room' version := by
  rw [Room.addPeerAtIndex] at h
  split at h
  · cases h
  rename_i hended
  split at h
  · cases h
  rename_i hcap
  split at h
  · cases h
  rename_i hversion
  cases h
  obtain ⟨hpin, hagrees⟩ := pin_of_versionError hversion
  have hbelow : room.peers.length < maxPeersPerRoom := by
    by_contra hge
    exact hcap (.inl (Nat.le_of_not_lt hge))
  exact ⟨by simpa using hended, hbelow, ⟨_, rfl, rfl, rfl⟩, hpin, hagrees⟩

theorem Admits.rosterStep (h : Admits room room' version) : RosterStep room room' := by
  obtain ⟨p, hpeers, hrev, hpub⟩ := h.one
  exact .joined p hpeers hrev hpub

theorem Admits.pinned_history (h : Admits r.room room' version) (hr : Pinned r) :
    Pinned ⟨room', r.admitted ++ [version]⟩ := by
  obtain ⟨p, hpeers, _, _⟩ := h.one
  refine ⟨?_, ?_⟩
  · show room'.peers.length ≤ _
    rw [hpeers, List.length_append, List.length_singleton]
    exact h.below
  · intro v hv
    show room'.guard.pinnedVersion = some v
    rcases List.mem_append.mp hv with hv | hv
    · rw [h.agrees v (hr.version v hv)]
      exact h.pinned
    · rw [List.mem_singleton.mp hv]
      exact h.pinned

/-- A removal takes one peer out, or nothing. -/
theorem rosterStep_removePeer (room : Room) (peerId : Uuid) :
    RosterStep room (room.removePeer peerId) := by
  rcases Room.removePeer_cases room peerId with ⟨hsame, _⟩ | ⟨p, hp, _, hdrop⟩
  · rw [hsame]
    exact .same rfl rfl rfl
  · rw [hdrop]
    exact .left p hp rfl rfl rfl

theorem pinnedVersion_removePeer (room : Room) (peerId : Uuid) :
    (room.removePeer peerId).guard.pinnedVersion = room.guard.pinnedVersion := by
  rcases Room.removePeer_cases room peerId with ⟨hsame, _⟩ | ⟨p, _, _, hdrop⟩
  · rw [hsame]
  · rw [hdrop]
    rfl

/-- The flag is no part of the roster. -/
theorem RosterStep.ended (h : RosterStep room room') (ended : Bool) :
    RosterStep room { room' with guard := { room'.guard with ended } } := by
  cases h with
  | same hpeers hrev hpub => exact .same hpeers hrev hpub
  | joined p hpeers hrev hpub => exact .joined p hpeers hrev hpub
  | left p hmem hpeers hrev hpub => exact .left p hmem hpeers hrev hpub

theorem peers_removePeer_subset (room : Room) (peerId : Uuid) :
    (room.removePeer peerId).peers ⊆ room.peers := by
  rcases Room.removePeer_cases room peerId with ⟨hsame, _⟩ | ⟨p, _, _, hdrop⟩
  · rw [hsame]
    exact List.Subset.refl _
  · rw [hdrop]
    intro q hq
    exact (List.mem_filter.mp hq).1

theorem pinned_removePeer (hr : Pinned r) (peerId : Uuid) :
    Pinned ⟨r.room.removePeer peerId, r.admitted⟩ := by
  refine ⟨?_, ?_⟩
  · show (r.room.removePeer peerId).peers.length ≤ _
    rcases Room.removePeer_cases r.room peerId with ⟨hsame, _⟩ | ⟨p, _, _, hdrop⟩
    · rw [hsame]
      exact hr.cap
    · rw [hdrop]
      exact le_trans (List.length_filter_le _ _) hr.cap
  · intro v hv
    rw [pinnedVersion_removePeer]
    exact hr.version v hv

/-! ## One call -/

/-- What there is to know about a call, in each of its cases. -/
theorem step_keeps {call : AdmissionCall} (hr : Pinned r) (h : step r call = some r') :
    Pinned r' ∧ Accounts r call r' := by
  cases call with
  | markEnded =>
    cases h
    exact ⟨⟨hr.cap, hr.version⟩, .same rfl rfl rfl, fun hf => hf.elim, fun _ =>
      ⟨rfl, List.Subset.refl _⟩⟩
  | call c =>
    obtain ⟨room', hc, rfl⟩ := Option.map_eq_some_iff.mp h
    cases c with
    | join peerId pubkey version =>
      rw [RoomCall.apply] at hc
      split at hc
      · cases hc
      split at hc
      · rename_i room'' idx hok
        cases hc
        have had := admits_addPeer hok
        have hadm : admittedBy r.room (.join peerId pubkey version) =
            [version] := by simp only [admittedBy, hok]
        rw [hadm]
        refine ⟨had.pinned_history hr, had.rosterStep, ?_, ?_⟩
        · rintro ⟨e, he⟩
          rw [hok] at he
          cases he
        · intro hended
          rw [had.notEnded] at hended
          cases hended
      · -- a refused admission leaves the room and the history as they are
        rename_i e hok
        cases hc
        have hadm : admittedBy r.room (.join peerId pubkey version) =
            [] := by simp only [admittedBy, hok]
        rw [hadm, List.append_nil]
        exact ⟨hr, .same rfl rfl rfl, fun _ => rfl, fun _ => ⟨rfl, List.Subset.refl _⟩⟩
    | joinAt peerId pubkey version peerIndex =>
      rw [RoomCall.apply] at hc
      split at hc
      · cases hc
      split at hc
      · rename_i room'' hok
        cases hc
        have had := admits_addPeerAtIndex hok
        have hadm : admittedBy r.room (.joinAt peerId pubkey version peerIndex) = [version] := by
          simp only [admittedBy, hok]
        rw [hadm]
        refine ⟨had.pinned_history hr, had.rosterStep, ?_, ?_⟩
        · rintro ⟨e, he⟩
          rw [hok] at he
          cases he
        · intro hended
          rw [had.notEnded] at hended
          cases hended
      · rename_i e hok
        cases hc
        have hadm : admittedBy r.room (.joinAt peerId pubkey version peerIndex) = [] := by
          simp only [admittedBy, hok]
        rw [hadm, List.append_nil]
        exact ⟨hr, .same rfl rfl rfl, fun _ => rfl, fun _ => ⟨rfl, List.Subset.refl _⟩⟩
    | leave peerId =>
      cases hc
      show Pinned ⟨_, r.admitted ++ []⟩ ∧ _
      rw [List.append_nil]
      refine ⟨pinned_removePeer hr peerId, rosterStep_removePeer r.room peerId, fun hf =>
        hf.elim, fun _ => ?_⟩
      exact ⟨List.append_nil _, peers_removePeer_subset r.room peerId⟩
    | leaveAndCheck peerId =>
      cases hc
      obtain ⟨ended, heq⟩ := Room.removePeerAndCheckEnded_fst r.room peerId
      have hp := pinned_removePeer hr peerId
      show Pinned ⟨_, r.admitted ++ []⟩ ∧ _
      rw [List.append_nil]
      refine ⟨?_, ?_, fun hf => hf.elim, fun _ => ⟨List.append_nil _, ?_⟩⟩
      · rw [heq]
        exact ⟨hp.cap, hp.version⟩
      · show RosterStep r.room (r.room.removePeerAndCheckEnded peerId).1
        rw [heq]
        exact (rosterStep_removePeer r.room peerId).ended ended
      · show (r.room.removePeerAndCheckEnded peerId).1.peers ⊆ r.room.peers
        rw [heq]
        exact peers_removePeer_subset r.room peerId
    | clearEnded =>
      cases hc
      show Pinned ⟨_, r.admitted ++ []⟩ ∧ _
      rw [List.append_nil]
      exact ⟨⟨hr.cap, hr.version⟩, .same rfl rfl rfl, fun hf => hf.elim, fun _ =>
        ⟨List.append_nil _, List.Subset.refl _⟩⟩

theorem logged_step {call : AdmissionCall} (hr : r.room.Logged) (h : step r call = some r') :
    r'.room.Logged := by
  cases call with
  | markEnded =>
    cases h
    exact logged_ended hr true
  | call c =>
    obtain ⟨room', hc, rfl⟩ := Option.map_eq_some_iff.mp h
    exact (grows_apply hr hc).logged

/-! ## The room's own indices -/

/-- Every index that was given out is in use or free. -/
def NoneLost (room : Room) : Prop :=
  room.guard.nextFresh = room.peers.length + room.guard.free.length

/-- **Below the cap there is an index.** -/
theorem addPeer_ne_full (h : NoneLost room) (hlt : room.peers.length < maxPeersPerRoom) :
    room.addPeer peerId pubkey version ≠ .error .full := by
  intro hfull
  rw [Room.addPeer] at hfull
  split at hfull
  · cases hfull
  rw [if_neg (by omega)] at hfull
  split at hfull
  · rename_i e he
    cases hfull
    unfold AdmissionGuard.versionError at he
    split at he
    · split at he
      · cases he
      · cases he
    · cases he
  · split at hfull
    · rename_i halloc
      unfold AdmissionGuard.alloc at halloc
      split at halloc
      · cases halloc
      rename_i hfree
      split at halloc
      · rename_i hnext
        unfold NoneLost at h
        rw [hfree, List.length_nil] at h
        unfold maxPeersPerRoom at hlt
        omega
      · cases halloc
    · cases hfull

theorem noneLost_addPeer (h : NoneLost room)
    (hok : room.addPeer peerId pubkey version = .ok (room', peerIndex)) : NoneLost room' := by
  obtain ⟨_, guard, halloc, rfl⟩ := Room.addPeer_ok hok
  show guard.nextFresh = (room.peers ++ [_]).length + guard.free.length
  unfold NoneLost at h
  rw [List.length_append, List.length_singleton]
  unfold AdmissionGuard.alloc at halloc
  split at halloc
  · rename_i free hfree
    cases halloc
    rw [hfree, List.length_cons] at h
    dsimp only
    omega
  · rename_i hfree
    split at halloc
    · cases halloc
    · cases halloc
      dsimp only
      omega

theorem length_filter_id_ne {peers : List AudioPeer} (hnd : (peers.map AudioPeer.id).Nodup)
    {p : AudioPeer}
    (hp : p ∈ peers) : (peers.filter fun q => q.id ≠ p.id).length + 1 = peers.length := by
  induction peers with
  | nil => cases hp
  | cons q peers ih =>
    rw [List.map_cons, List.nodup_cons] at hnd
    rcases List.mem_cons.mp hp with rfl | hmem
    · have hall : peers.filter (fun q => q.id ≠ p.id) = peers := by
        rw [List.filter_eq_self]
        intro q hq
        have hne : q.id ≠ p.id := fun heq => hnd.1 (heq ▸ List.mem_map_of_mem hq)
        simpa using hne
      rw [List.filter_cons_of_neg (by simp), hall, List.length_cons]
    · have hne : q.id ≠ p.id := fun heq => hnd.1 (heq ▸ List.mem_map_of_mem hmem)
      have hlen := ih hnd.2 hmem
      rw [List.filter_cons_of_pos (by simpa using hne), List.length_cons, List.length_cons]
      omega

theorem noneLost_removePeer (h : NoneLost room) (hlog : room.Logged) (peerId : Uuid) :
    NoneLost (room.removePeer peerId) := by
  rcases Room.removePeer_cases room peerId with ⟨hsame, _⟩ | ⟨p, hp, _, hdrop⟩
  · rw [hsame]
    exact h
  rw [hdrop]
  show room.guard.nextFresh = (room.peers.filter fun q =>
    q.id ≠ p.id).length + (p.peerIndex :: room.guard.free).length
  have hlen := length_filter_id_ne hlog.ids hp
  unfold NoneLost at h
  rw [List.length_cons]
  omega

theorem noneLost_step {call : AdmissionCall} (hr : NoneLost r.room) (hlog : r.room.Logged)
    (hown : OwnIndex r call) (h : step r call = some r') : NoneLost r'.room := by
  cases call with
  | markEnded =>
    cases h
    exact hr
  | call c =>
    obtain ⟨room', hc, rfl⟩ := Option.map_eq_some_iff.mp h
    cases c with
    | join peerId pubkey version =>
      rw [RoomCall.apply] at hc
      split at hc
      · cases hc
      split at hc
      · rename_i hok
        cases hc
        exact noneLost_addPeer hr hok
      · cases hc
        exact hr
    | joinAt => exact hown.elim
    | leave peerId =>
      cases hc
      exact noneLost_removePeer hr hlog peerId
    | leaveAndCheck peerId =>
      cases hc
      obtain ⟨ended, heq⟩ := Room.removePeerAndCheckEnded_fst r.room peerId
      rw [heq]
      exact noneLost_removePeer hr hlog peerId
    | clearEnded =>
      cases hc
      exact hr

/-! ## Runs -/

variable {communityId : CommunityId} {channelId : Uuid} {calls : List AdmissionCall}

/-- **The admission invariant**, in every run of the six operations. -/
theorem admission_sound (h : machine.run (init communityId channelId) calls = some r) :
    Sound r ∧ (∀ call r', step r call = some r' → Accounts r call r')
      ∧ (machine.Always OwnIndex (init communityId channelId) calls →
        r.room.peers.length < maxPeersPerRoom →
        ∀ peerId pubkey version, r.room.addPeer peerId pubkey version ≠ .error .full) := by
  have hinv : r.room.Logged ∧ Pinned r := by
    refine Machine.invariant (P := fun _ _ => True) (I := fun r => r.room.Logged ∧
      Pinned r) ?_ ?_ Machine.always_true h
    · intro r call r' hr _ hstep
      exact ⟨logged_step hr.1 hstep, (step_keeps hr.2 hstep).1⟩
    · refine ⟨logged_new communityId channelId, Nat.zero_le _, ?_⟩
      intro v hv
      cases hv
  obtain ⟨hlog, hpin⟩ := hinv
  refine ⟨?_, fun call r' hstep => (step_keeps hpin hstep).2, ?_⟩
  · refine ⟨hlog.indexed.nodup, hlog.indexed.free, ?_, hpin.cap, ?_, hlog.revision, hlog.roster⟩
    · intro p hp
      exact hlog.indexed.apart p.peerIndex (List.mem_map_of_mem hp)
    · intro v hv w hw
      have hv := hpin.version v hv
      rw [hpin.version w hw] at hv
      exact (Option.some.inj hv).symm
  · intro hown hlt peerId pubkey version
    refine addPeer_ne_full ?_ hlt
    have hboth : r.room.Logged ∧ NoneLost r.room := by
      refine Machine.invariant (P := OwnIndex) (I := fun r =>
        r.room.Logged ∧ NoneLost r.room) ?_ ?_ hown h
      · intro r call r' hr hown hstep
        exact ⟨logged_step hr.1 hstep, noneLost_step hr.2 hr.1 hown hstep⟩
      · exact ⟨logged_new communityId channelId, rfl⟩
    exact hboth.2

instance (r : RoomHistory) : ∀ call, Decidable (OwnIndex r call)
  | .call (.joinAt ..) => isFalse id
  | .call (.join ..) => isTrue trivial
  | .call (.leave _) => isTrue trivial
  | .call (.leaveAndCheck _) => isTrue trivial
  | .call .clearEnded => isTrue trivial
  | .markEnded => isTrue trivial

/-- Two peers join, one is refused for its version, one leaves. -/
def visits : List AdmissionCall :=
  [.call (.join (.ofNat 16 3) "ada" 2), .call (.join (.ofNat 16 4) "bob" 1),
    .call (.join (.ofNat 16 5) "cyd" 2),
    .call (.leave (.ofNat 16 3)), .markEnded, .call .clearEnded]

/-- One peer is left, and the next is not told that the room is full. -/
theorem admission_sound_visits :
    ∃ r, machine.run (init ⟨.ofNat 16 1⟩ (.ofNat 16 2)) visits = some r
      ∧ r.room.peers = [⟨.ofNat 16 5, "cyd", 1⟩] ∧ Sound r
      ∧ r.room.addPeer (.ofNat 16 6) "dan" 2 ≠ .error .full := by
  have hrun : machine.run (init ⟨.ofNat 16 1⟩ (.ofNat 16 2)) visits = some _ := rfl
  have h := admission_sound hrun
  exact ⟨_, hrun, rfl, h.1, h.2.2 (by decide) (by decide) _ _ _⟩

end RoomHistory

end Pkzz.Audio
