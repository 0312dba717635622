import Pkzz.Audio.Roster

/-!
# The owner's control loop and its non-owner

One `HuddleControl` stream: the owner's `serve_control_loop`, as far as it is about the roster, and
the non-owner's `dial_remote_owner` and `read_owner_control`. Both directions of the stream are
queues. In between, anybody may enter and leave the room, clean it up when it is empty, and open
another one under the same key of the map.

The deltas come from the room that was subscribed to, but the loop looks the room up again for a
snapshot. While the map still has that room, the client is a mirror of it; once another room has
taken its place, a snapshot is about that one.

A receiver of the broadcast channel is a place in the room's log. When more than `capacity` deltas
wait behind it, the next `recv` says so and goes on at the oldest one that is still kept.
-/

namespace Pkzz.Audio

open Pkzz.Core Pkzz.Lib

/-! ## Messages -/

/-- The messages of the owner to a non-owner that carry a roster, and the request for one. -/
inductive HuddleControlMsg where
  | peerRegistered (pubkey : String) (peerIndex : Nat) (roster : RosterSnapshot)
  | rosterSnapshot (snapshot : RosterSnapshot)
  | rosterDelta (delta : RosterDelta)
  | rosterResync
  deriving DecidableEq

/-- What the non-owner forwards to its client. -/
inductive RosterEvent where
  | joined (peers : List RosterPeer)
  | left (peer : RosterPeer)
  | roster (peers : List RosterPeer)
  deriving DecidableEq

/-- The map of the client after a message. -/
def RosterEvent.apply (indexToPubkey : Map Nat String) : RosterEvent → Map Nat String
  | joined peers => peers.foldl (fun m p => Finmap.insert p.peerIndex p.pubkey m) indexToPubkey
  | left peer => Finmap.erase peer.peerIndex indexToPubkey
  | roster peers => rosterMap peers

/-- The state of `read_owner_control`, and the map its client has rebuilt. -/
structure Reader where
  revision : Nat
  indexToPubkey : Map Nat String

/-- `dial_remote_owner` with a `PeerRegistered`, whose roster the client gets in its `joined`
message. -/
def Reader.registered (roster : RosterSnapshot) : Reader :=
  ⟨roster.revision, (RosterEvent.joined roster.peers).apply ∅⟩

/-- The event of a delta, if it has one. -/
def RosterDelta.event (d : RosterDelta) : Option RosterEvent :=
  match d.joined, d.left with
  | some p, _ => some (.joined [p])
  | none, some p => some (.left p)
  | none, none => none

/-- One frame of `read_owner_control`, and whether it asks for a snapshot. -/
def readOwnerControl (r : Reader) : HuddleControlMsg → Reader × Bool
  | .rosterSnapshot snapshot =>
      (⟨snapshot.revision, (RosterEvent.roster snapshot.peers).apply r.indexToPubkey⟩, false)
  | .rosterDelta delta =>
    if delta.revision = (r.revision + 1) % 2 ^ 64 then
      (⟨delta.revision, match delta.event with
        | some event => event.apply r.indexToPubkey
        | none => r.indexToPubkey⟩, false)
    else if delta.revision ≤ r.revision then (r, false)
    else (r, true)
  | _ => (r, false)

/-! ## The stream -/

/-- Where the control loop of the owner is with the one client of the stream. -/
inductive Stage where
  /-- No `RegisterPeer` yet, or it was refused. -/
  | waiting
  /-- Subscribed, before the admission. -/
  | subscribed (pos : Nat)
  /-- Admitted, before the reply. -/
  | admitted (pos peerIndex : Nat)
  | serving (pos : Nat)
  deriving DecidableEq

/-- What the map of rooms has under the key of the huddle. -/
inductive Mapped where
  /-- The room of the stream. -/
  | own
  | gone
  /-- A room that was made when the room of the stream had gone. -/
  | other (room : Room)

structure Link where
  /-- The room that the stream subscribes to. -/
  room : Room
  mapped : Mapped
  stage : Stage
  /-- Whether the control loop has ended. -/
  closed : Bool
  toNonOwner : List HuddleControlMsg
  toOwner : List HuddleControlMsg
  reader : Option Reader

/-- `self.rooms.get(community_id, session_id)`. -/
def Link.mappedRoom (s : Link) : Option Room :=
  match s.mapped with
  | .own => some s.room
  | .gone => none
  | .other room => some room

inductive Step where
  /-- Anybody's call on the room. -/
  | call (call : RoomCall)
  /-- Anybody's `cleanup_if_empty`. -/
  | cleanup
  /-- Anybody's `get_or_create` when the room has gone. -/
  | create
  /-- Anybody's call on the room that has taken its place. -/
  | otherCall (call : RoomCall)
  /-- `RegisterPeer` has come: the loop gets the room and subscribes, and then waits for the fence.
  -/
  | subscribe
  /-- `register_remote_peer`. -/
  | addPeer (peerId : Uuid) (pubkey : String) (protocolVersion : Nat)
  /-- The reply, with a snapshot that is taken only now. -/
  | reply (pubkey : String)
  /-- `roster_event`: what `rx.recv()` gives is forwarded. -/
  | event
  /-- `Closed`: a room that is no longer in the map is dropped, and its deltas have all been taken.
  -/
  | channelClosed
  /-- A `RosterResync` of the non-owner is served. -/
  | serveResync
  /-- The non-owner reads a frame. -/
  | read
  /-- The non-owner asks for a snapshot of its own accord. -/
  | ask

/-- `rx.recv()`, on the part of the log behind `pos`: a delta, or none for `Lagged`, and the next
place. -/
def recvRoster (capacity : Nat) (room : Room) (pos : Nat) : Option (Option RosterDelta × Nat) :=
  if room.published.length - pos > capacity then some (none, room.published.length - capacity)
  else (room.published[pos]?).map fun delta => (some delta, pos + 1)

/-- A snapshot of the room in the map; the loop ends when there is none. -/
def Link.sendSnapshot (s : Link) : Link :=
  match s.mappedRoom with
  | some room => { s with toNonOwner := s.toNonOwner ++ [.rosterSnapshot room.rosterSnapshot] }
  | none => { s with closed := true }

variable (capacity : Nat)

local instance lawfulBEq_uuid : LawfulBEq Uuid := inferInstance

def link : Machine Link Step where
  step s
    | .call call => (call.apply s.room).map fun room => { s with room }
    | .cleanup =>
      match s.mappedRoom with
      | some room => if room.isEmpty then some { s with mapped := .gone } else some s
      | none => some s
    | .create =>
      match s.mapped with
      | .gone => some { s with mapped := .other (.new s.room.communityId s.room.channelId) }
      | _ => some s
    | .otherCall call =>
      match s.mapped with
      | .other room => (call.apply room).map fun room' => { s with mapped := .other room' }
      | _ => none
    | .subscribe =>
      match s.closed, s.stage with
      | false, .waiting =>
        let room := s.mappedRoom.getD (.new s.room.communityId s.room.channelId)
        some { s with room, mapped := .own, stage := .subscribed room.published.length }
      | _, _ => none
    | .addPeer peerId pubkey protocolVersion =>
      match s.stage with
      | .subscribed pos =>
        if peerId ∈ s.room.peers.map AudioPeer.id then none
        else
          match s.room.addPeer peerId pubkey protocolVersion with
          | .ok (room, peerIndex) => some { s with room, stage := .admitted pos peerIndex }
          | .error _ => some { s with stage := .waiting }
      | _ => none
    | .reply pubkey =>
      match s.stage with
      | .admitted pos peerIndex =>
        some { s with
          stage := .serving pos
          toNonOwner := s.toNonOwner ++ [.peerRegistered pubkey peerIndex s.room.rosterSnapshot] }
      | _ => none
    | .event =>
      match s.closed, s.stage with
      | false, .serving pos =>
        (recvRoster capacity s.room pos).map fun received =>
          match received.1 with
          | some delta =>
            { s with
              stage := .serving received.2, toNonOwner := s.toNonOwner ++ [.rosterDelta delta] }
          | none => Link.sendSnapshot { s with stage := .serving received.2 }
      | _, _ => none
    | .channelClosed =>
      match s.mapped, s.stage with
      | .own, _ => none
      | _, .serving pos =>
          if s.room.published.length ≤ pos then some { s with closed := true } else none
      | _, _ => none
    | .serveResync =>
      match s.closed, s.toOwner with
      | false, .rosterResync :: toOwner => some (Link.sendSnapshot { s with toOwner })
      | _, _ => none
    | .read =>
      match s.toNonOwner, s.reader with
      | .peerRegistered _ _ roster :: toNonOwner, none =>
          some { s with toNonOwner, reader := some (.registered roster) }
      | msg :: toNonOwner, some r =>
        let (r', resync) := readOwnerControl r msg
        some { s with
          toNonOwner
          reader := some r'
          toOwner := if resync then s.toOwner ++ [.rosterResync] else s.toOwner }
      | _, _ => none
    | .ask => if s.reader.isSome then
        some { s with toOwner := s.toOwner ++ [.rosterResync] } else none

/-- A room as it is created, and a stream that was just opened. -/
def Link.start (communityId : CommunityId) (channelId : Uuid) : Link :=
  ⟨Room.new communityId channelId, .own, .waiting, false, [], [], none⟩

/-- The receiver has fallen behind the channel. -/
def Link.Lagged (s : Link) : Prop :=
  ∃ pos, s.stage = .serving pos ∧ s.room.published.length - pos > capacity

/-- A snapshot is taken while the map has the stream's own room, and no revision is about to wrap.
-/
def OwnSnapshots (s : Link) : Step → Prop
  | .call _ | .addPeer .. => s.room.published.length + 1 < 2 ^ 64
  | .otherCall _ => ∀ room, s.mapped = .other room → room.published.length + 1 < 2 ^ 64
  | .event => s.Lagged capacity → s.mapped = .own
  | .serveResync => s.mapped = .own
  | _ => True

/-! ## The invariant -/

/-- The revision the reader is at after the messages. -/
def lastRead : Nat → List HuddleControlMsg → Nat
  | revision, [] => revision
  | _, .rosterSnapshot snapshot :: msgs => lastRead snapshot.revision msgs
  | revision, .rosterDelta delta :: msgs => lastRead (max revision delta.revision) msgs
  | revision, _ :: msgs => lastRead revision msgs

/-- The messages are about the room, in an order that neither goes back nor leaves a gap. -/
def Flows (room : Room) : Nat → List HuddleControlMsg → Prop
  | _, [] => True
  | revision, .rosterSnapshot snapshot :: msgs =>
    revision ≤ snapshot.revision ∧ snapshot.revision ≤ room.published.length ∧
      rosterMap snapshot.peers = room.rosterAt snapshot.revision ∧ Flows room snapshot.revision msgs
  | revision, .rosterDelta delta :: msgs =>
    delta.revision ≤ revision + 1 ∧
      (∃ i, room.published[i]? = some delta ∧ delta.revision = i + 1) ∧
      Flows room (max revision delta.revision) msgs
  | _, _ :: _ => False

/-- What the non-owner has read, and what it will have read. -/
structure Follows (room : Room) (pos revision : Nat) (msgs : List HuddleControlMsg) : Prop where
  flows : Flows room revision msgs
  reached : revision ≤ room.published.length
  last : lastRead revision msgs ≤ room.published.length
  /-- What is taken from the channel is no further on than what will be read. -/
  ahead : pos ≤ lastRead revision msgs

/-- The client has the roster of its revision. -/
structure Reader.Mirrors (r : Reader) (room : Room) : Prop where
  revision : r.revision ≤ room.published.length
  roster : r.indexToPubkey = room.rosterAt r.revision

/-- What is known at a stage of the stream. -/
def Link.AtStage (s : Link) : Prop :=
  match s.stage, s.reader with
  | .serving pos, none =>
      ∃ pubkey peerIndex roster msgs, s.toNonOwner =
      .peerRegistered pubkey peerIndex roster :: msgs ∧
      rosterMap roster.peers = s.room.rosterAt roster.revision ∧
        Follows s.room pos roster.revision msgs
  | .serving pos, some r => r.Mirrors s.room ∧ Follows s.room pos r.revision s.toNonOwner
  | .admitted pos _, none => s.toNonOwner = [] ∧ pos ≤ s.room.published.length
  | .subscribed pos, none => s.toNonOwner = [] ∧ pos ≤ s.room.published.length
  | .waiting, none => s.toNonOwner = []
  | _, some _ => False

/-- A room in the map, below the last revision. -/
structure Room.Live (room : Room) : Prop where
  logged : room.Logged
  below : room.published.length < 2 ^ 64

structure Link.Sound (s : Link) : Prop where
  live : s.room.Live
  other : ∀ room, s.mapped = .other room → room.Live
  stage : s.AtStage
  /-- Only a registered client asks. -/
  asked : s.reader = none → s.toOwner = []

variable {room room' : Room} {pos revision : Nat} {msgs : List HuddleControlMsg} {r : Reader}
    {s s' : Link}

/-! ### Messages in flight -/

theorem lastRead_concat (revision : Nat) (msgs : List HuddleControlMsg) (msg : HuddleControlMsg) :
    lastRead revision (msgs ++ [msg]) = lastRead (lastRead revision msgs) [msg] := by
  induction msgs generalizing revision with
  | nil => rfl
  | cons m msgs ih =>
    cases m with
    | rosterSnapshot snapshot => exact ih snapshot.revision
    | rosterDelta delta => exact ih (max revision delta.revision)
    | peerRegistered pubkey peerIndex roster => exact ih revision
    | rosterResync => exact ih revision

variable {msg : HuddleControlMsg}

theorem flows_concat (h : Flows room revision msgs)
    (hmsg : Flows room (lastRead revision msgs) [msg]) : Flows room revision (msgs ++ [msg]) := by
  induction msgs generalizing revision with
  | nil => exact hmsg
  | cons m msgs ih =>
    cases m with
    | rosterSnapshot snapshot => exact ⟨h.1, h.2.1, h.2.2.1, ih h.2.2.2 hmsg⟩
    | rosterDelta delta => exact ⟨h.1, h.2.1, ih h.2.2 hmsg⟩
    | peerRegistered pubkey peerIndex roster => exact h
    | rosterResync => exact h

/-- Messages about a room stay messages about it. -/
theorem flows_grows (h : Flows room revision msgs) (hroom : room.published <+: room'.published) :
    Flows room' revision msgs := by
  induction msgs generalizing revision with
  | nil => trivial
  | cons m msgs ih =>
    cases m with
    | rosterSnapshot snapshot =>
      obtain ⟨hle, hreached, hroster, hrest⟩ := h
      refine ⟨hle, le_trans hreached hroom.length_le, ?_, ih hrest⟩
      rw [hroster, rosterAt_of_prefix hroom hreached]
    | rosterDelta delta =>
      obtain ⟨hle, ⟨i, hi, hnum⟩, hrest⟩ := h
      refine ⟨hle, ⟨i, ?_, hnum⟩, ih hrest⟩
      obtain ⟨hlt, _⟩ := List.getElem?_eq_some_iff.mp hi
      obtain ⟨more, hmore⟩ := hroom
      rw [← hmore, List.getElem?_append_left hlt, hi]
    | peerRegistered pubkey peerIndex roster => exact h
    | rosterResync => exact h

theorem follows_grows (h : Follows room pos revision msgs)
    (hroom : room.published <+: room'.published) : Follows room' pos revision msgs :=
  ⟨flows_grows h.flows hroom, le_trans h.reached hroom.length_le,
    le_trans h.last hroom.length_le, h.ahead⟩

theorem mirrors_grows (h : r.Mirrors room) (hroom : room.published <+: room'.published) :
    r.Mirrors room' := by
  refine ⟨le_trans h.revision hroom.length_le, ?_⟩
  rw [h.roster, rosterAt_of_prefix hroom h.revision]

/-- A snapshot of the room may always be sent. -/
theorem follows_snapshot (hlive : room.Live) (h : Follows room pos revision msgs) {pos' : Nat}
    (hpos : pos' ≤ room.published.length) :
    Follows room pos' revision (msgs ++ [.rosterSnapshot room.rosterSnapshot]) := by
  obtain ⟨hrev, hroster⟩ := rosterMap_snapshot hlive.logged hlive.below
  have hlast : lastRead revision (msgs ++ [.rosterSnapshot room.rosterSnapshot]) =
      room.published.length := by
    rw [lastRead_concat]
    exact hrev
  refine ⟨flows_concat h.flows ⟨?_, le_of_eq hrev, ?_, trivial⟩, h.reached, le_of_eq hlast,
    hlast ▸ hpos⟩
  · rw [hrev]
    exact h.last
  · rw [hrev]
    exact hroster

/-- The next delta of the channel is one behind what will be read, or it was overtaken by a
snapshot. -/
theorem follows_delta (hlive : room.Live) (h : Follows room pos revision msgs) {delta : RosterDelta}
    (hdelta : room.published[pos]? = some delta) :
    Follows room (pos + 1) revision (msgs ++ [.rosterDelta delta]) := by
  obtain ⟨hlt, _⟩ := List.getElem?_eq_some_iff.mp hdelta
  have hnum : delta.revision = pos + 1 :=
    (hlive.logged.numbered pos delta hdelta).trans
      (Nat.mod_eq_of_lt (by have := hlive.below; omega))
  have hahead := h.ahead
  have hlast : lastRead revision (msgs ++ [.rosterDelta delta]) =
      max (lastRead revision msgs) delta.revision := by
    rw [lastRead_concat]
    rfl
  refine ⟨flows_concat h.flows ⟨?_, ⟨pos, hdelta, hnum⟩, trivial⟩, h.reached, ?_, ?_⟩
  · rw [hnum]
    omega
  · rw [hlast, hnum]
    exact max_le h.last hlt
  · rw [hlast, hnum]
    exact le_max_right _ _

/-! ### Reading -/

/-- The next revision of a room is its next delta. -/
theorem rosterAt_succ {delta : RosterDelta} (h : room.published[revision]? = some delta) :
    room.rosterAt (revision + 1) = delta.apply (room.rosterAt revision) := by
  rw [Room.rosterAt, Room.rosterAt, List.take_add_one, h, Option.toList_some, replay,
    List.foldl_append]
  rfl

/-- A forwarded delta does to the client what it does to the roster. -/
theorem event_apply (m : Map Nat String) (d : RosterDelta) :
    (match d.event with
      | some event => event.apply m
      | none => m) = d.apply m := by
  rw [RosterDelta.event, RosterDelta.apply]
  cases d.joined with
  | some p => rfl
  | none =>
    cases d.left with
    | some p => rfl
    | none => rfl

/-- **Reading a frame.** The reader never asks, never goes back, and stays a mirror. -/
theorem read_follows (hbelow : room.published.length < 2 ^ 64) (hmirrors : r.Mirrors room)
    (h : Follows room pos r.revision (msg :: msgs)) :
    (readOwnerControl r msg).2 = false ∧ r.revision ≤ (readOwnerControl r msg).1.revision ∧
      (readOwnerControl r msg).1.Mirrors room ∧ Follows room pos
        (readOwnerControl r msg).1.revision msgs := by
  cases msg with
  | rosterSnapshot snapshot =>
    obtain ⟨hle, hreached, hroster, hrest⟩ := h.flows
    exact ⟨rfl, hle, ⟨hreached, hroster⟩, hrest, hreached, h.last, h.ahead⟩
  | rosterDelta delta =>
    obtain ⟨hle, ⟨i, hi, hnum⟩, hrest⟩ := h.flows
    have hlast := h.last
    have hahead := h.ahead
    obtain ⟨hlt, _⟩ := List.getElem?_eq_some_iff.mp hi
    have hreached := h.reached
    have hwrap : delta.revision = (r.revision + 1) % 2 ^ 64 ↔
        delta.revision = r.revision + 1 := by omega
    rw [readOwnerControl]
    by_cases hnext : delta.revision = r.revision + 1
    · have hmax : max r.revision delta.revision = delta.revision := by omega
      have hirev : i = r.revision := by omega
      rw [if_pos (hwrap.mpr hnext)]
      refine ⟨rfl, by dsimp only; omega, ⟨by dsimp only; omega, ?_⟩, ?_⟩
      · dsimp only
        rw [event_apply, hnext, rosterAt_succ (hirev ▸ hi), hmirrors.roster]
      · dsimp only
        rw [hmax] at hrest
        rw [lastRead, hmax] at hlast hahead
        exact ⟨hrest, by omega, hlast, hahead⟩
    · have hold : delta.revision ≤ r.revision := by omega
      have hmax : max r.revision delta.revision = r.revision := by omega
      rw [if_neg (fun heq => hnext (hwrap.mp heq)), if_pos hold]
      rw [hmax] at hrest
      rw [lastRead, hmax] at hlast hahead
      exact ⟨rfl, le_rfl, hmirrors, hrest, h.reached, hlast, hahead⟩
  | peerRegistered pubkey peerIndex roster => exact absurd h.flows id
  | rosterResync => exact absurd h.flows id

/-! ### Every step -/

theorem live_new (communityId : CommunityId) (channelId : Uuid) :
    (Room.new communityId channelId).Live :=
  ⟨logged_new communityId channelId, Nat.two_pow_pos 64⟩

/-- A call keeps a room live, below the last revision. -/
theorem live_apply {call : RoomCall} (h : room.Live) (hbelow : room.published.length + 1 < 2 ^ 64)
    (hcall : call.apply room = some room') : room'.Live ∧ room.published <+: room'.published := by
  obtain ⟨hlogged, hlog, hnext⟩ := grows_apply h.logged hcall
  exact ⟨⟨hlogged, lt_of_le_of_lt hnext hbelow⟩, hlog⟩

theorem sound_start (communityId : CommunityId) (channelId : Uuid) :
    (Link.start communityId channelId).Sound := by
  refine ⟨live_new communityId channelId, ?_, rfl, fun _ => rfl⟩
  intro room hroom
  cases hroom

/-- What the map has is live. -/
theorem Link.Sound.mappedRoom (h : s.Sound) (hroom : s.mappedRoom = some room) : room.Live := by
  unfold Link.mappedRoom at hroom
  split at hroom
  · cases hroom
    exact h.live
  · cases hroom
  · rename_i other hother
    cases hroom
    exact h.other _ hother

/-- The room may grow at any stage. -/
theorem atStage_grows (h : s.AtStage) (hroom : s.room.published <+: room'.published) :
    ({ s with room := room' } : Link).AtStage := by
  obtain ⟨room, mapped, stage, closed, toNonOwner, toOwner, reader⟩ := s
  cases stage with
  | waiting => cases reader <;> exact h
  | subscribed pos | admitted pos peerIndex =>
    cases reader with
    | none => exact ⟨h.1, le_trans h.2 hroom.length_le⟩
    | some r => exact h
  | serving pos =>
    cases reader with
    | none =>
      obtain ⟨pubkey, peerIndex, roster, msgs, hmsgs, hroster, hfollows⟩ := h
      refine ⟨pubkey, peerIndex, roster, msgs, hmsgs, ?_, follows_grows hfollows hroom⟩
      rw [hroster, rosterAt_of_prefix hroom hfollows.reached]
    | some r => exact ⟨mirrors_grows h.1 hroom, follows_grows h.2 hroom⟩

/-- A message that follows the others may be sent while the stream is served. -/
theorem atStage_send {pos' : Nat} (h : s.AtStage) (hstage : s.stage = .serving pos)
    (hsend : ∀ {revision msgs}, Follows s.room pos revision msgs →
      Follows s.room pos' revision (msgs ++ [msg])) :
    ({ s with stage := .serving pos', toNonOwner := s.toNonOwner ++ [msg] } : Link).AtStage := by
  obtain ⟨room, mapped, stage, closed, toNonOwner, toOwner, reader⟩ := s
  cases hstage
  cases reader with
  | none =>
    obtain ⟨pubkey, peerIndex, roster, msgs, hmsgs, hroster, hfollows⟩ := h
    refine ⟨pubkey, peerIndex, roster, msgs ++ [msg], ?_, hroster, hsend hfollows⟩
    show toNonOwner ++ [msg] = _
    have hmsgs : toNonOwner = .peerRegistered pubkey peerIndex roster :: msgs := hmsgs
    rw [hmsgs, List.cons_append]
  | some r => exact ⟨h.1, hsend h.2⟩

/-- While the map has the stream's room, a snapshot follows what was sent. -/
theorem atStage_sendSnapshot {pos' : Nat} (hlive : s.room.Live) (h : s.AtStage)
    (hstage : s.stage = .serving pos)
    (hown : s.mapped = .own) (hpos : pos' ≤ s.room.published.length) :
    (Link.sendSnapshot { s with stage := .serving pos' }).AtStage := by
  have hroom : Link.mappedRoom { s with stage := .serving pos' } = some s.room := by
    simp only [Link.mappedRoom, hown]
  simp only [Link.sendSnapshot, hroom]
  exact atStage_send h hstage fun hfollows => follows_snapshot hlive hfollows hpos

/-- What sending a snapshot leaves as it is. -/
theorem sendSnapshot_frame (s : Link) :
    s.sendSnapshot.room = s.room ∧ s.sendSnapshot.mapped = s.mapped ∧
      s.sendSnapshot.toOwner = s.toOwner ∧ s.sendSnapshot.reader = s.reader := by
  unfold Link.sendSnapshot
  split
  · exact ⟨rfl, rfl, rfl, rfl⟩
  · exact ⟨rfl, rfl, rfl, rfl⟩

theorem sound_sendSnapshot (hlive : s.room.Live)
    (hother : ∀ room, s.mapped = .other room → room.Live)
    (hasked : s.reader = none → s.toOwner = []) (hstage : s.sendSnapshot.AtStage) :
    s.sendSnapshot.Sound := by
  obtain ⟨hroom, hmapped, htoOwner, hreader⟩ := sendSnapshot_frame s
  refine ⟨?_, ?_, hstage, ?_⟩
  · rw [hroom]
    exact hlive
  · rw [hmapped]
    exact hother
  · rw [hreader, htoOwner]
    exact hasked

/-- What the reader sees does not go back. -/
def ReaderOnward (s s' : Link) : Prop :=
  ∀ r, s.reader = some r → ∃ r', s'.reader = some r' ∧ r.revision ≤ r'.revision

theorem readerOnward_of_eq (h : s'.reader = s.reader) : ReaderOnward s s' := by
  intro r hr
  exact ⟨r, h.trans hr, le_rfl⟩

/-- What happens to the map and to the room in it is no matter of the stream. -/
theorem sound_mapped {mapped : Mapped} (h : s.Sound)
    (hother : ∀ room, mapped = .other room → room.Live) :
    ({ s with mapped } : Link).Sound ∧ ReaderOnward s { s with mapped } :=
  ⟨⟨h.live, hother, h.stage, h.asked⟩, readerOnward_of_eq rfl⟩

theorem sound_cleanup (h : s.Sound) (hstep : (link capacity).step s .cleanup = some s') :
    s'.Sound ∧ ReaderOnward s s' := by
  simp only [link] at hstep
  split at hstep
  · split at hstep
    · cases hstep
      refine sound_mapped h ?_
      intro room hroom
      cases hroom
    · cases hstep
      exact ⟨h, readerOnward_of_eq rfl⟩
  · cases hstep
    exact ⟨h, readerOnward_of_eq rfl⟩

theorem sound_create (h : s.Sound) (hstep : (link capacity).step s .create = some s') :
    s'.Sound ∧ ReaderOnward s s' := by
  simp only [link] at hstep
  split at hstep
  · cases hstep
    refine sound_mapped h ?_
    intro room hroom
    cases hroom
    exact live_new _ _
  · cases hstep
    exact ⟨h, readerOnward_of_eq rfl⟩

theorem sound_otherCall {call : RoomCall} (h : s.Sound)
    (hheld : OwnSnapshots capacity s (.otherCall call))
    (hstep : (link capacity).step s (.otherCall call) = some s') :
    s'.Sound ∧ ReaderOnward s s' := by
  simp only [link] at hstep
  split at hstep
  · rename_i room hroom
    obtain ⟨room', hcall, rfl⟩ := Option.map_eq_some_iff.mp hstep
    refine sound_mapped h ?_
    intro other hother
    cases hother
    exact (live_apply (h.other room hroom) (hheld room hroom) hcall).1
  · cases hstep

/-- A subscription is to the room in the map, and nothing has been sent yet. -/
theorem sound_subscribe (h : s.Sound) (hstep : (link capacity).step s .subscribe = some s') :
    s'.Sound ∧ ReaderOnward s s' := by
  simp only [link] at hstep
  split at hstep
  · rename_i hopen hwaiting
    cases hstep
    have hlive : (s.mappedRoom.getD (.new s.room.communityId s.room.channelId)).Live := by
      cases hroom : s.mappedRoom with
      | none => exact live_new _ _
      | some room => exact h.mappedRoom hroom
    refine ⟨⟨hlive, ?_, ?_, h.asked⟩, readerOnward_of_eq rfl⟩
    · intro room hroom
      cases hroom
    · have hstage := h.stage
      obtain ⟨room, mapped, stage, closed, toNonOwner, toOwner, reader⟩ := s
      cases hwaiting
      cases reader with
      | none => exact ⟨hstage, le_rfl⟩
      | some r => exact hstage
  · cases hstep

theorem sound_addPeer {peerId : Uuid} {pubkey : String} {protocolVersion : Nat} (h : s.Sound)
    (hheld : OwnSnapshots capacity s (.addPeer peerId pubkey protocolVersion))
    (hstep : (link capacity).step s (.addPeer peerId pubkey protocolVersion) = some s') :
    s'.Sound ∧ ReaderOnward s s' := by
  obtain ⟨room, mapped, stage, closed, toNonOwner, toOwner, reader⟩ := s
  cases stage with
  | subscribed pos =>
    simp only [link] at hstep
    split at hstep
    · cases hstep
    rename_i hid
    split at hstep
    · rename_i room' peerIndex hok
      cases hstep
      obtain ⟨hlogged, hlog, hnext⟩ := grows_addPeer h.live.logged hid hok
      refine ⟨⟨⟨hlogged, lt_of_le_of_lt hnext hheld⟩, h.other, ?_, h.asked⟩, readerOnward_of_eq rfl⟩
      cases reader with
      | none => exact ⟨h.stage.1, le_trans h.stage.2 hlog.length_le⟩
      | some r => exact h.stage
    · cases hstep
      refine ⟨⟨h.live, h.other, ?_, h.asked⟩, readerOnward_of_eq rfl⟩
      cases reader with
      | none => exact h.stage.1
      | some r => exact h.stage
  | waiting => cases hstep
  | admitted pos peerIndex => cases hstep
  | serving pos => cases hstep

/-- The snapshot of the reply has everything up to now, and so all that was published since the
subscription. -/
theorem sound_reply {pubkey : String} (h : s.Sound)
    (hstep : (link capacity).step s (.reply pubkey) = some s') : s'.Sound ∧ ReaderOnward s s' := by
  obtain ⟨room, mapped, stage, closed, toNonOwner, toOwner, reader⟩ := s
  cases stage with
  | admitted pos peerIndex =>
    cases hstep
    refine ⟨⟨h.live, h.other, ?_, h.asked⟩, readerOnward_of_eq rfl⟩
    cases reader with
    | none =>
      obtain ⟨hmsgs, hpos⟩ := h.stage
      obtain ⟨hrev, hroster⟩ := rosterMap_snapshot h.live.logged h.live.below
      have hmsgs : toNonOwner = [] := hmsgs
      subst hmsgs
      refine ⟨pubkey, peerIndex, room.rosterSnapshot, [], rfl, ?_, trivial, le_of_eq hrev,
        le_of_eq hrev, ?_⟩
      · rw [hrev]
        exact hroster
      · rw [lastRead, hrev]
        exact hpos
    | some r => exact absurd h.stage id
  | waiting => cases hstep
  | subscribed pos => cases hstep
  | serving pos => cases hstep

theorem sound_event (h : s.Sound) (hheld : OwnSnapshots capacity s .event)
    (hstep : (link capacity).step s .event = some s') : s'.Sound ∧ ReaderOnward s s' := by
  simp only [link] at hstep
  split at hstep
  · rename_i pos hopen hstage
    obtain ⟨⟨delta, pos'⟩, hrecv, rfl⟩ := Option.map_eq_some_iff.mp hstep
    rw [recvRoster] at hrecv
    split at hrecv
    · -- the receiver lags: a snapshot is sent, and the channel goes on at its oldest delta
      rename_i hlag
      cases hrecv
      have hat := atStage_sendSnapshot h.live h.stage hstage (hheld ⟨pos, hstage, hlag⟩)
        (Nat.sub_le s.room.published.length capacity)
      exact ⟨sound_sendSnapshot h.live h.other h.asked hat,
        readerOnward_of_eq (sendSnapshot_frame _).2.2.2⟩
    · obtain ⟨d, hdelta, heq⟩ := Option.map_eq_some_iff.mp hrecv
      cases heq
      refine ⟨⟨h.live, h.other, ?_, h.asked⟩, readerOnward_of_eq rfl⟩
      exact atStage_send h.stage hstage fun hfollows => follows_delta h.live hfollows hdelta
  · cases hstep

theorem sound_channelClosed (h : s.Sound)
    (hstep : (link capacity).step s .channelClosed = some s') : s'.Sound ∧ ReaderOnward s s' := by
  simp only [link] at hstep
  split at hstep
  · cases hstep
  · split at hstep
    · cases hstep
      exact ⟨⟨h.live, h.other, h.stage, h.asked⟩, readerOnward_of_eq rfl⟩
    · cases hstep
  · cases hstep

theorem sound_serveResync (h : s.Sound) (hown : s.mapped = .own)
    (hstep : (link capacity).step s .serveResync = some s') : s'.Sound ∧ ReaderOnward s s' := by
  simp only [link] at hstep
  split at hstep
  · rename_i toOwner hopen hqueue
    cases hstep
    have hreader : s.reader ≠ none := by
      intro hnone
      rw [h.asked hnone] at hqueue
      cases hqueue
    have hat : (Link.sendSnapshot { s with toOwner }).AtStage := by
      have hstage := h.stage
      have hlive := h.live
      obtain ⟨room, mapped, stage, closed, toNonOwner, asked, reader⟩ := s
      obtain ⟨r, hr⟩ := Option.ne_none_iff_exists'.mp hreader
      cases hr
      cases hown
      cases stage with
      | serving pos =>
        exact ⟨hstage.1, follows_snapshot hlive hstage.2 (le_trans hstage.2.ahead hstage.2.last)⟩
      | waiting => exact hstage
      | subscribed pos => exact hstage
      | admitted pos peerIndex => exact hstage
    refine ⟨sound_sendSnapshot h.live h.other ?_ hat,
      readerOnward_of_eq (sendSnapshot_frame _).2.2.2⟩
    intro hnone
    exact absurd hnone hreader
  · cases hstep

/-- The first frame that is read is the registration. -/
theorem sound_read_first (h : s.Sound) (hreader : s.reader = none)
    (hstep : (link capacity).step s .read = some s') : s'.Sound ∧ ReaderOnward s s' := by
  have hstage := h.stage
  obtain ⟨room, mapped, stage, closed, toNonOwner, asked, reader⟩ := s
  cases hreader
  cases stage with
  | serving pos =>
    obtain ⟨pubkey, peerIndex, roster, msgs, hmsgs, hroster, hfollows⟩ := hstage
    have hmsgs : toNonOwner = .peerRegistered pubkey peerIndex roster :: msgs := hmsgs
    subst hmsgs
    cases hstep
    refine ⟨⟨h.live, h.other, ⟨⟨hfollows.reached, hroster⟩, hfollows⟩, ?_⟩, ?_⟩
    · intro hnone
      cases hnone
    · intro r hr
      cases hr
  | waiting =>
    have hmsgs : toNonOwner = [] := hstage
    subst hmsgs
    cases hstep
  | subscribed pos | admitted pos peerIndex =>
    have hmsgs : toNonOwner = [] := hstage.1
    subst hmsgs
    cases hstep

theorem sound_read (h : s.Sound) (hreader : s.reader = some r)
    (hstep : (link capacity).step s .read = some s') : s'.Sound ∧ ReaderOnward s s' := by
  have hstage := h.stage
  obtain ⟨room, mapped, stage, closed, toNonOwner, asked, reader⟩ := s
  cases hreader
  cases stage with
  | serving pos =>
    cases toNonOwner with
    | nil => cases hstep
    | cons msg msgs =>
      obtain ⟨hquiet, honward, hmirrors, hfollows⟩ := read_follows h.live.below hstage.1 hstage.2
      have hnext : some (⟨room, mapped, .serving pos, closed, msgs,
          if (readOwnerControl r msg).2 then asked ++ [.rosterResync] else asked,
          some (readOwnerControl r msg).1⟩ : Link) = some s' := by
        cases msg <;> exact hstep
      rw [hquiet] at hnext
      cases hnext
      refine ⟨⟨h.live, h.other, ⟨hmirrors, hfollows⟩, ?_⟩, ?_⟩
      · intro hnone
        cases hnone
      · intro r₀ hr₀
        cases hr₀
        exact ⟨_, rfl, honward⟩
  | waiting => exact absurd hstage id
  | subscribed pos => exact absurd hstage id
  | admitted pos peerIndex => exact absurd hstage id

theorem sound_ask (h : s.Sound) (hstep : (link capacity).step s .ask = some s') :
    s'.Sound ∧ ReaderOnward s s' := by
  simp only [link] at hstep
  split at hstep
  · rename_i hreader
    cases hstep
    refine ⟨⟨h.live, h.other, h.stage, ?_⟩, readerOnward_of_eq rfl⟩
    intro hnone
    have hnone : s.reader = none := hnone
    rw [hnone] at hreader
    cases hreader
  · cases hstep

/-- **Every step keeps the stream sound**, while its snapshots are of its own room. -/
theorem sound_step {a : Step} (h : s.Sound) (hheld : OwnSnapshots capacity s a)
    (hstep : (link capacity).step s a = some s') : s'.Sound ∧ ReaderOnward s s' := by
  cases a with
  | call call =>
    obtain ⟨room, hroom, rfl⟩ := Option.map_eq_some_iff.mp hstep
    obtain ⟨hlive, hlog⟩ := live_apply h.live hheld hroom
    exact ⟨⟨hlive, h.other, atStage_grows h.stage hlog, h.asked⟩, readerOnward_of_eq rfl⟩
  | cleanup => exact sound_cleanup capacity h hstep
  | create => exact sound_create capacity h hstep
  | otherCall call => exact sound_otherCall capacity h hheld hstep
  | subscribe => exact sound_subscribe capacity h hstep
  | addPeer peerId pubkey protocolVersion => exact sound_addPeer capacity h hheld hstep
  | reply pubkey => exact sound_reply capacity h hstep
  | event => exact sound_event capacity h hheld hstep
  | channelClosed => exact sound_channelClosed capacity h hstep
  | serveResync => exact sound_serveResync capacity h hheld hstep
  | read =>
    cases hreader : s.reader with
    | none => exact sound_read_first capacity h hreader hstep
    | some r => exact sound_read capacity h hreader hstep
  | ask => exact sound_ask capacity h hstep

theorem sound_run {communityId : CommunityId} {channelId : Uuid} {steps : List Step}
    (hheld : (link capacity).Always (OwnSnapshots capacity) (.start communityId channelId) steps)
    (hrun : (link capacity).run (.start communityId channelId) steps = some s) : s.Sound :=
  Machine.invariant (fun _ _ _ hs hheld hstep => (sound_step capacity hs hheld hstep).1)
    (sound_start communityId channelId) hheld hrun

/-- A reader that has read everything is at the room's revision. -/
theorem drained {pos : Nat} (h : s.Sound) (hreader : s.reader = some r)
    (hstage : s.stage = .serving pos)
    (hread : s.toNonOwner = []) (hpos : s.room.published.length ≤ pos) :
    r.revision = s.room.published.length := by
  have hat := h.stage
  obtain ⟨room, mapped, stage, closed, toNonOwner, toOwner, reader⟩ := s
  cases hreader
  cases hstage
  have hread : toNonOwner = [] := hread
  subst hread
  have hahead : pos ≤ r.revision := hat.2.ahead
  exact le_antisymm hat.1.revision (le_trans hpos hahead)

/-- **The roster is replicated.** In every run whose snapshots are of the stream's own room the
client has the owner's roster at the revision it saw last, no such step takes it back to an older
revision, and once nothing waits in the channel or in the stream it has the owner's current roster.
-/
theorem roster_replicated {communityId : CommunityId} {channelId : Uuid} {steps : List Step}
    (hheld : (link capacity).Always (OwnSnapshots capacity) (.start communityId channelId) steps)
    (hrun : (link capacity).run (.start communityId channelId) steps = some s)
    (hreader : s.reader = some r) :
    (r.revision ≤ s.room.published.length ∧ r.indexToPubkey = s.room.rosterAt r.revision) ∧
    (∀ a s', OwnSnapshots capacity s a → (link capacity).step s a = some s' →
      ∃ r', s'.reader = some r' ∧ r.revision ≤ r'.revision) ∧
    (∀ pos, s.stage = .serving pos → s.toNonOwner = [] → s.toOwner = [] →
      s.room.published.length ≤ pos →
      r.revision = s.room.guard.rosterRevision ∧
        r.indexToPubkey = rosterMap (s.room.peers.map AudioPeer.entry)) := by
  have h := sound_run capacity hheld hrun
  have hmirrors : r.Mirrors s.room := by
    have hstage := h.stage
    obtain ⟨room, mapped, stage, closed, toNonOwner, toOwner, reader⟩ := s
    cases hreader
    cases stage with
    | serving pos => exact hstage.1
    | waiting => exact absurd hstage id
    | subscribed pos => exact absurd hstage id
    | admitted pos peerIndex => exact absurd hstage id
  refine ⟨⟨hmirrors.revision, hmirrors.roster⟩, ?_, ?_⟩
  · intro a s' hheld hstep
    exact (sound_step capacity h hheld hstep).2 r hreader
  · intro pos hstage hread _ hpos
    have hcurrent := drained h hreader hstage hread hpos
    have hrevision : s.room.guard.rosterRevision = s.room.published.length :=
      h.live.logged.revision.trans (Nat.mod_eq_of_lt h.live.below)
    refine ⟨hcurrent.trans hrevision.symm, ?_⟩
    rw [hmirrors.roster, hcurrent, Room.rosterAt, List.take_length, ← h.live.logged.roster]

instance (s : Link) : Decidable (s.Lagged capacity) :=
  match h : s.stage with
  | .serving pos =>
    decidable_of_iff (s.room.published.length - pos > capacity)
      ⟨fun hlag => ⟨pos, h, hlag⟩, fun ⟨_, heq, hlag⟩ => by cases h.symm.trans heq; exact hlag⟩
  | .waiting => isFalse fun ⟨_, heq, _⟩ => by cases h.symm.trans heq
  | .subscribed _ => isFalse fun ⟨_, heq, _⟩ => by cases h.symm.trans heq
  | .admitted _ _ => isFalse fun ⟨_, heq, _⟩ => by cases h.symm.trans heq

instance (s : Link) : ∀ a, Decidable (OwnSnapshots capacity s a)
  | .call _ => inferInstanceAs (Decidable (_ < _))
  | .addPeer .. => inferInstanceAs (Decidable (_ < _))
  | .otherCall _ =>
    match h : s.mapped with
    | .other room =>
      decidable_of_iff (room.published.length + 1 < 2 ^ 64)
        ⟨fun hlt _ heq => by cases h.symm.trans heq; exact hlt, fun hall => hall room h⟩
    | .own => isTrue fun _ heq => by cases h.symm.trans heq
    | .gone => isTrue fun _ heq => by cases h.symm.trans heq
  | .event =>
    match h : s.mapped with
    | .own => isTrue fun _ => h
    | .gone => decidable_of_iff (¬ s.Lagged capacity) ⟨fun hno hlag => absurd hlag hno,
        fun hall hlag => by cases h.symm.trans (hall hlag)⟩
    | .other _ => decidable_of_iff (¬ s.Lagged capacity) ⟨fun hno hlag => absurd hlag hno,
        fun hall hlag => by cases h.symm.trans (hall hlag)⟩
  | .serveResync =>
    match h : s.mapped with
    | .own => isTrue h
    | .gone => isFalse fun heq => by cases h.symm.trans heq
    | .other _ => isFalse fun heq => by cases h.symm.trans heq
  | .cleanup => isTrue trivial
  | .create => isTrue trivial
  | .subscribe => isTrue trivial
  | .reply _ => isTrue trivial
  | .channelClosed => isTrue trivial
  | .read => isTrue trivial
  | .ask => isTrue trivial

/-- Two peers join behind a channel that keeps one delta: a snapshot, and then the delta it
overtook. -/
def lagging : List Step :=
  [ .subscribe, .addPeer (.ofNat 16 1) "a" 2, .reply "a", .event, .read, .read,
    .call (.join (.ofNat 16 2) "b" 2), .call (.leave (.ofNat 16 1)), .event,
      .event, .read, .read ]

/-- The reader ends with the roster of revision 3. -/
theorem roster_replicated_lagging :
    ∃ s r, (link 1).run (.start ⟨FixedBytes.ofNat 16 8⟩ (FixedBytes.ofNat 16 9)) lagging = some s ∧
      s.reader = some r ∧ r.revision = 3 ∧ r.revision ≤ s.room.published.length ∧
      r.indexToPubkey = s.room.rosterAt r.revision := by
  have hheld : (link 1).Always (OwnSnapshots 1)
      (.start ⟨FixedBytes.ofNat 16 8⟩ (FixedBytes.ofNat 16 9)) lagging := by
    decide
  have hrun : ((link 1).run (.start ⟨FixedBytes.ofNat 16 8⟩ (FixedBytes.ofNat 16 9)) lagging).map
      (fun s => s.reader.map Reader.revision) = some (some 3) := by decide
  obtain ⟨s, hs, hreader⟩ := Option.map_eq_some_iff.mp hrun
  obtain ⟨r, hr, hrevision⟩ := Option.map_eq_some_iff.mp hreader
  exact ⟨s, r, hs, hr, hrevision, (roster_replicated 1 hheld hs hr).1⟩

/-- While the fence is asked about "a", somebody cleans the empty room up. Those who hold the room
come and go, 33 times behind the client's back, and a new client opens another room before the loop
finds that it lags. -/
def displaced : List Step :=
  [.subscribe, .cleanup, .addPeer (.ofNat 16 1) "a" 2, .reply "a", .event, .read, .read,
    .call (.join (.ofNat 16 2) "b" 2), .event, .read, .call (.leave (.ofNat 16 2))]
    ++ (List.replicate 33 [.call (.join (.ofNat 16 2) "b" 2), .call (.leave (.ofNat 16 2))]).flatten
    ++ [.create, .otherCall (.join (.ofNat 16 3) "c" 2), .event]

/-- The revisions before and after the next frame is read. -/
def revisionsAtRead (s : Link) : Option (Option Nat × Option Nat) :=
  ((link 64).step s .read).map fun s' =>
    (s.reader.map Reader.revision, s'.reader.map Reader.revision)

/-- The channel of the source keeps 64 deltas. The client is taken from revision 2 to revision 1 of
another room. -/
theorem not_roster_replicated :
    ∃ s s' r r', (link 64).run (.start ⟨.ofNat 16 8⟩ (.ofNat 16 9)) displaced = some s
      ∧ s.reader = some r ∧ (link 64).step s .read = some s' ∧ s'.reader = some r' ∧
        r'.revision < r.revision := by
  have hrun : ((link 64).run (.start ⟨.ofNat 16 8⟩ (.ofNat 16 9)) displaced).bind revisionsAtRead
      = some (some 2, some 1) := by decide +kernel
  obtain ⟨s, hs, hread⟩ := Option.bind_eq_some_iff.mp hrun
  obtain ⟨s', hs', hrevisions⟩ := Option.map_eq_some_iff.mp hread
  obtain ⟨hbefore, hafter⟩ := Prod.mk.inj hrevisions
  obtain ⟨r, hr, hrevision⟩ := Option.map_eq_some_iff.mp hbefore
  obtain ⟨r', hr', hrevision'⟩ := Option.map_eq_some_iff.mp hafter
  refine ⟨s, s', r, r', hs, hr, hs', hr', ?_⟩
  rw [hrevision, hrevision']
  decide

end Pkzz.Audio
